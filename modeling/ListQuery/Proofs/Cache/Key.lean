import ListQuery.Cache.Key
import ListQuery.Proofs.Json.Value

/-!
# The parts of a cache key

A key is read from left to right: up to a colon where a part has none itself, and to the end of the
value where it is JSON.  Only the sort field, behind which the order alone stands, may hold anything.

* `CacheKey.peel`, `peel_last`   a text up to its first colon, and from its last one on;
* `CacheKey.Closed`              an optional part of which the end can be told;
* `CacheKey.parts_unique`        the optional parts of a key are those of any equal key;
* `CacheKey.optionals`           the optional parts of a request's key;
* `CacheKey.ofRequest_eq`        the key from its parts.
-/

namespace ListQuery

namespace CacheKey

/-! ## up to a colon -/

theorem peel {a b s t : List Char} (ha : ':' ∉ a) (hb : ':' ∉ b)
    (h : a ++ ':' :: s = b ++ ':' :: t) : a = b ∧ s = t := by
  induction a generalizing b with
  | nil =>
    cases b with
    | nil => exact ⟨rfl, (List.cons.inj h).2⟩
    | cons c b =>
      have hc := (List.cons.inj h).1
      exact absurd (hc ▸ List.mem_cons_self) hb
  | cons c a ih =>
    cases b with
    | nil =>
      have hc := (List.cons.inj h).1
      exact absurd (hc ▸ List.mem_cons_self) ha
    | cons d b =>
      obtain ⟨rfl, hrest⟩ := List.cons.inj h
      rw [List.mem_cons, not_or] at ha hb
      obtain ⟨rfl, rfl⟩ := ih ha.2 hb.2 hrest
      exact ⟨rfl, rfl⟩

theorem peel_last {a b s t : List Char} (hs : ':' ∉ s) (ht : ':' ∉ t)
    (h : a ++ ':' :: s = b ++ ':' :: t) : a = b ∧ s = t := by
  have hreverse : s.reverse ++ ':' :: a.reverse = t.reverse ++ ':' :: b.reverse := by
    have hboth := congrArg List.reverse h
    simpa using hboth
  obtain ⟨hends, hfronts⟩ := peel (by simpa using hs) (by simpa using ht) hreverse
  exact ⟨List.reverse_injective hfronts, List.reverse_injective hends⟩

/-! ## optional parts -/

def jsonNames : List String := ["page", "limit", "filters", "projection", "cursor"]

/-- an optional part of which the end can be told -/
structure Closed (p : String × List Char) : Prop where
  name : ':' ∉ p.1.toList
  notLast : p.1 ≠ "sort"
  text : if p.1 ∈ jsonNames then ∃ v, Json.Reads p.2 v else ':' ∉ p.2

theorem Closed.json {name : String} (hname : ':' ∉ name.toList) (hlast : name ≠ "sort")
    (hjson : name ∈ jsonNames) {text : List Char} {v : Value} (h : Json.Reads text v) :
    Closed (name, text) := ⟨hname, hlast, (if_pos hjson).mpr ⟨v, h⟩⟩

theorem Closed.plain {name : String} (hname : ':' ∉ name.toList) (hlast : name ≠ "sort")
    (hjson : name ∉ jsonNames) {text : List Char} (h : ':' ∉ text) : Closed (name, text) :=
  ⟨hname, hlast, (if_neg hjson).mpr h⟩

def before : List (String × List Char) → List Char → List Char
  | [], last => last
  | (name, text) :: rest, last => name.toList ++ ':' :: (text ++ ':' :: before rest last)

theorem ends_colon (rest : List Char) : Json.Ends (':' :: rest) :=
  Json.ends_cons rest (.inr (.inl rfl))

theorem Closed.unique {name : String} {text text' rest rest' : List Char}
    (h : Closed (name, text)) (h' : Closed (name, text'))
    (heq : text ++ ':' :: rest = text' ++ ':' :: rest') : text = text' ∧ rest = rest' := by
  have htext := h.text
  have htext' := h'.text
  dsimp only at htext htext'
  split at htext
  · rename_i hjson
    rw [if_pos hjson] at htext'
    obtain ⟨v, hv⟩ := htext
    obtain ⟨w, hw⟩ := htext'
    obtain ⟨_, hrest⟩ := hv.unique hw (ends_colon rest) (ends_colon rest') heq
    rw [hrest] at heq
    exact ⟨List.append_cancel_right heq, (List.cons.inj hrest).2⟩
  · rename_i hplain
    rw [if_neg hplain] at htext'
    exact peel htext htext' heq

/-- the optional parts of a key can be told from each other and from the last part -/
theorem parts_unique {xs ys : List (String × List Char)} (hxs : ∀ p ∈ xs, Closed p)
    (hys : ∀ p ∈ ys, Closed p) {last last' : List Char}
    (h : before xs ("sort".toList ++ ':' :: last) = before ys ("sort".toList ++ ':' :: last')) :
    xs = ys ∧ last = last' := by
  have hsort : ':' ∉ "sort".toList := by decide
  induction xs generalizing ys with
  | nil =>
    cases ys with
    | nil => exact ⟨rfl, (peel hsort hsort h).2⟩
    | cons q ys =>
      have hq := hys q List.mem_cons_self
      obtain ⟨hname, _⟩ := peel hsort hq.name h
      exact absurd (String.toList_inj.mp hname).symm hq.notLast
  | cons p xs ih =>
    rw [List.forall_mem_cons] at hxs
    obtain ⟨name, text⟩ := p
    cases ys with
    | nil =>
      obtain ⟨hname, _⟩ := peel hxs.1.name hsort h
      exact absurd (String.toList_inj.mp hname) hxs.1.notLast
    | cons q ys =>
      rw [List.forall_mem_cons] at hys
      obtain ⟨name', text'⟩ := q
      obtain ⟨hname, htail⟩ := peel hxs.1.name hys.1.name h
      obtain rfl := String.toList_inj.mp hname
      obtain ⟨rfl, hrest⟩ := hxs.1.unique hys.1 htail
      obtain ⟨rfl, rfl⟩ := ih hxs.2 hys.2 hrest
      exact ⟨rfl, rfl⟩

/-! ## the key of a request -/

def Rendered (v : Value) (text : Option String) : Prop :=
  match text with
  | none => v.isNull = true
  | some text => v.isNull = false ∧ JsonStyle.key.render v = .ok text

def FilterText (filters : List (String × Value)) (text : Option String) : Prop :=
  match text with
  | none => filters = []
  | some text => filters ≠ [] ∧ JsonStyle.key.render (.record filters) = .ok text

structure Texts where
  page : String
  limit : String
  filters : Option String
  projection : Option String
  cursor : Option String

def optionalNames : List String :=
  ["search", "fields", "mode", "filters", "projection", "cursor", "cursor_field"]

def given (text : String) (isGiven : Bool) : Option String := if isGiven then some text else none

def textOf (r : Request) (t : Texts) (name : String) : Option String :=
  match name with
  | "search" => given (r.search.getD "") (r.search.getD "" ≠ "")
  | "fields" => given (String.intercalate "," r.searchFields) (r.searchFields ≠ [])
  | "mode" => given r.searchMode.name (r.searchMode ≠ .contains)
  | "filters" => t.filters
  | "projection" => t.projection
  | "cursor" => t.cursor
  | "cursor_field" => given (r.cursorField.getD "") (r.cursorField.getD "" ≠ "")
  | _ => none

def optionals (r : Request) (t : Texts) : List (String × String) :=
  optionalNames.flatMap fun name => ((textOf r t name).map (name, ·)).toList

/-- all parts of a key between the model and the order -/
def inner (r : Request) (t : Texts) : List (String × String) :=
  ("page", t.page) :: ("limit", t.limit) :: optionals r t

structure Texts.Of (t : Texts) (config : Config) (r : Request) : Prop where
  page : numberOr r.page config.defaultPage = .ok t.page
  limit : numberOr r.limit config.defaultLimit = .ok t.limit
  filters : ∃ written, r.toRecord = .ok written ∧ FilterText (filterPart written) t.filters
  projection : Rendered r.projection t.projection
  cursor : Rendered r.cursor t.cursor

theorem part_eq (name text : String) (isGiven : Bool) :
    part name text isGiven
      = ((given text isGiven).map (name, ·)).toList.map fun p => p.1 ++ ":" ++ p.2 := by
  cases isGiven <;> rfl

theorem valuePart_eq {name : String} {v : Value} {parts : List String}
    (h : valuePart name v = .ok parts) :
    ∃ text, Rendered v text ∧
      parts = (text.map (name, ·)).toList.map fun p : String × String => p.1 ++ ":" ++ p.2 := by
  unfold valuePart at h
  split at h
  · rename_i hnull
    cases h
    exact ⟨none, hnull, rfl⟩
  · rename_i hnull
    obtain ⟨text, htext, h⟩ := Outcome.bind_eq_ok.mp h
    cases h
    exact ⟨some text, ⟨by simpa using hnull, htext⟩, rfl⟩

theorem before_eq (parts : List (String × String)) (last : String) :
    [':'].intercalate ((parts.map fun p => p.1 ++ ":" ++ p.2) ++ [last] |>.map String.toList)
      = before (parts.map fun p => (p.1, p.2.toList)) last.toList := by
  induction parts with
  | nil => simp [before]
  | cons p parts ih =>
    have hne : ((parts.map fun p => p.1 ++ ":" ++ p.2) ++ [last]).map String.toList ≠ [] := by simp
    rw [List.map_cons, List.cons_append, List.map_cons, List.intercalate_cons_of_ne_nil hne, ih,
      List.map_cons, before]
    simp

theorem ofRequest_eq {config : Config} {r : Request} {key : String}
    (h : ofRequest config r = .ok key) :
    ∃ t : Texts, t.Of config r ∧
      key.toList = ((Value.ofText? r.model).orElse (.str "unknown")).display.toList
        ++ ':' :: before ((inner r t).map fun p => (p.1, p.2.toList))
          ("sort".toList ++ ':' :: ((Plan.sortField config r).display.toList
            ++ ':' :: (Plan.direction config r).display.toList)) := by
  unfold ofRequest at h
  obtain ⟨written, hwritten, h⟩ := Outcome.bind_eq_ok.mp h
  obtain ⟨page, hpage, h⟩ := Outcome.bind_eq_ok.mp h
  obtain ⟨limit, hlimit, h⟩ := Outcome.bind_eq_ok.mp h
  obtain ⟨filterText, hfilters, h⟩ := Outcome.bind_eq_ok.mp h
  obtain ⟨projectionParts, hprojectionParts, h⟩ := Outcome.bind_eq_ok.mp h
  obtain ⟨cursorParts, hcursorParts, h⟩ := Outcome.bind_eq_ok.mp h
  obtain ⟨field, hfield, h⟩ := Outcome.bind_eq_ok.mp h
  obtain ⟨direction, hdirection, h⟩ := Outcome.bind_eq_ok.mp h
  obtain ⟨projection, hprojection, rfl⟩ := valuePart_eq hprojectionParts
  obtain ⟨cursor, hcursor, rfl⟩ := valuePart_eq hcursorParts
  refine ⟨⟨page, limit, given filterText ((filterPart written).length ≠ 0), projection, cursor⟩,
    ⟨hpage, hlimit, ⟨written, hwritten, ?_⟩, hprojection, hcursor⟩, ?_⟩
  · by_cases hempty : filterPart written = []
    · rw [hempty]
      exact rfl
    · have hlength : (filterPart written).length ≠ 0 := by simpa using hempty
      show FilterText _ (given filterText (decide ((filterPart written).length ≠ 0)))
      rw [decide_eq_true hlength]
      exact ⟨hempty, hfilters⟩
  · have hkey := Except.ok.inj h
    rw [← hkey, String.toList_intercalate]
    simp only [part_eq]
    have hparts : ∀ (t : Texts) (model sort : String),
        [model, "page:" ++ t.page, "limit:" ++ t.limit]
          ++ ((textOf r t "search").map ("search", ·)).toList.map (fun p => p.1 ++ ":" ++ p.2)
          ++ ((textOf r t "fields").map ("fields", ·)).toList.map (fun p => p.1 ++ ":" ++ p.2)
          ++ ((textOf r t "mode").map ("mode", ·)).toList.map (fun p => p.1 ++ ":" ++ p.2)
          ++ ((textOf r t "filters").map ("filters", ·)).toList.map (fun p => p.1 ++ ":" ++ p.2)
          ++ ((textOf r t "projection").map ("projection", ·)).toList.map (fun p => p.1 ++ ":" ++ p.2)
          ++ ((textOf r t "cursor").map ("cursor", ·)).toList.map (fun p => p.1 ++ ":" ++ p.2)
          ++ ((textOf r t "cursor_field").map ("cursor_field", ·)).toList.map
              (fun p => p.1 ++ ":" ++ p.2)
          ++ [sort]
        = model :: ((inner r t).map (fun p => p.1 ++ ":" ++ p.2) ++ [sort]) := by
      intro t model sort
      simp only [inner, optionals, optionalNames, List.flatMap_cons, List.flatMap_nil, List.map_cons,
        List.map_append, List.cons_append, List.nil_append, List.append_assoc, List.append_nil]
      rfl
    refine (congrArg (fun parts => [':'].intercalate (parts.map String.toList))
      (hparts ⟨page, limit, given filterText ((filterPart written).length ≠ 0), projection, cursor⟩
        _ _)).trans ?_
    rw [List.map_cons, List.intercalate_cons_of_ne_nil (by simp), before_eq, List.append_assoc,
      Value.display_of_text hfield, Value.display_of_text hdirection]
    simp

end CacheKey

end ListQuery
