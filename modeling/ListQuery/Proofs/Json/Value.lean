import ListQuery.Proofs.Json.Number
import ListQuery.Proofs.Json.Text
import ListQuery.Proofs.Value.Overlay
import ListQuery.Proofs.Value.Text

/-!
# Values in JSON

What is written into a cache key reads back as what JSON keeps of it: sequences become lists,
records come in the order of their names, and what JSON does not know is its text.  It is written
unless an integer in it has too many digits.

* `Value.Regular`   the doubles in a value are proper, and no record has a name twice;
* `Value.kept`      what JSON keeps of a value;
* `Json.Reads`      a text that reads as a value wherever it stands;
* `Json.value_reads`   what is written of a value;
* `JsonStyle.write_legible`   what a style that takes anything as its text writes;
* `Value.exportable`, `JsonStyle.write_isOk`
                       the values that an export has a text for.
-/

namespace ListQuery

/-! ## what is kept -/

namespace Value

mutual

/-- the doubles in a value are proper, and no record has a name twice -/
def Regular : Value → Prop
  | .float (.finite _ m e) => Binary64.Proper m e
  | .list items => RegularAll items
  | .tuple items => RegularAll items
  | .record entries => (entries.map (·.1)).Nodup ∧ RegularEntries entries
  | _ => True

def RegularAll : List Value → Prop
  | [] => True
  | v :: rest => Regular v ∧ RegularAll rest

def RegularEntries : List (String × Value) → Prop
  | [] => True
  | (_, v) :: rest => Regular v ∧ RegularEntries rest

end

mutual

/-- what JSON keeps of a value -/
def kept : Value → Value
  | .null => .null
  | .bool b => .bool b
  | .int n => .int n
  | .float (.nan _) => .float (.nan 0)
  | .float x => .float x
  | .str s => .str s
  | .list items => .list (keptAll items)
  | .tuple items => .list (keptAll items)
  | .record entries => .record (JsonStyle.byName (keptEntries entries))
  | v => .str v.display

def keptAll : List Value → List Value
  | [] => []
  | v :: rest => kept v :: keptAll rest

def keptEntries : List (String × Value) → List (String × Value)
  | [] => []
  | (name, v) :: rest => (name, kept v) :: keptEntries rest

end

theorem keptEntries_names (entries : List (String × Value)) :
    (keptEntries entries).map (·.1) = entries.map (·.1) := by
  induction entries with
  | nil => rw [keptEntries]
  | cons e rest ih => rw [keptEntries, List.map_cons, List.map_cons, ih]

end Value

namespace JsonStyle

/-! ## values as texts -/

theorem shown_eq (style : JsonStyle) (v : Value) :
    style.shown v = Value.legible v.hasText (style.text v.display.toList) := by
  rw [shown, Value.text_eq, Value.legible_map]

theorem integer_eq {style : JsonStyle} (hothers : style.others ≠ .content) (n : Int) :
    style.integer n = Value.legible (Value.isShort n) (Value.signed n) := by
  rw [integer, if_neg hothers, Value.integerText_eq]

theorem counts_eq {style : JsonStyle} (hothers : style.others ≠ .content) (depth : Nat)
    (m : PageMeta) :
    style.counts depth m = Value.legible ([m.total, m.page, m.limit, m.totalPages].all Value.isShort)
      (style.object depth [("total", Value.signed m.total), ("page", Value.signed m.page),
        ("limit", Value.signed m.limit), ("total_pages", Value.signed m.totalPages)]) := by
  unfold counts
  simp only [integer_eq hothers, Value.legible_map, Value.legible_bind, List.all_cons, List.all_nil,
    Bool.and_true]

/-! ## orders of names -/

variable {α β : Type}

theorem insertByName_perm (part : String × α) (parts : List (String × α)) :
    (insertByName part parts).Perm (part :: parts) := by
  induction parts with
  | nil => exact .refl _
  | cons other rest ih =>
    rw [insertByName]
    split
    · exact .refl _
    · exact (ih.cons other).trans (.swap part other rest)

theorem foldl_insertByName_perm (parts sorted : List (String × α)) :
    (parts.foldl (fun sorted part => insertByName part sorted) sorted).Perm (parts ++ sorted) := by
  induction parts generalizing sorted with
  | nil => exact .refl _
  | cons part parts ih =>
    apply (ih _).trans
    apply ((insertByName_perm part sorted).append_left parts).trans
    exact List.perm_middle

theorem byName_perm (parts : List (String × α)) : (byName parts).Perm parts := by
  have h := foldl_insertByName_perm parts []
  rw [List.append_nil] at h
  exact h

theorem insertByName_map (f : α → β) (part : String × α) (parts : List (String × α)) :
    insertByName (part.1, f part.2) (parts.map fun p => (p.1, f p.2))
      = (insertByName part parts).map fun p => (p.1, f p.2) := by
  induction parts with
  | nil => rfl
  | cons other rest ih =>
    rw [List.map_cons, insertByName, insertByName]
    split
    · rfl
    · rw [ih, List.map_cons]

theorem byName_map (f : α → β) (parts : List (String × α)) :
    byName (parts.map fun p => (p.1, f p.2)) = (byName parts).map fun p => (p.1, f p.2) := by
  have h : ∀ sorted : List (String × α),
      (parts.map fun p => (p.1, f p.2)).foldl (fun sorted part => insertByName part sorted)
          (sorted.map fun p => (p.1, f p.2))
        = (parts.foldl (fun sorted part => insertByName part sorted) sorted).map
            fun p => (p.1, f p.2) := by
    induction parts with
    | nil => exact fun _ => rfl
    | cons part parts ih =>
      intro sorted
      rw [List.map_cons, List.foldl_cons, List.foldl_cons, insertByName_map, ih]
  exact h []

end JsonStyle

namespace Json

/-! ## texts that read as values -/

/-- a text that starts neither with a space nor with a closing mark -/
def Starts (cs : List Char) : Prop :=
  ∃ c tail, cs = c :: tail ∧ isSpace c = false ∧ c ≠ ']' ∧ c ≠ '\x7d'

/-- a text that reads as a value wherever it stands -/
structure Reads (cs : List Char) (v : Value) : Prop where
  starts : Starts cs
  reads : ∀ fuel depth rest, Ends rest → 2 * cs.length ≤ fuel →
    value {} fuel depth (cs ++ rest) = .ok (v, rest)

theorem skipSpace_eq {cs : List Char} (h : ∀ c ∈ cs.head?, isSpace c = false) : skipSpace cs = cs := by
  unfold skipSpace
  cases cs with
  | nil => rfl
  | cons c tail =>
    rw [List.dropWhile_cons_of_neg]
    rw [h c rfl]
    decide

theorem Starts.skipSpace {cs : List Char} (h : Starts cs) (rest : List Char) :
    skipSpace (cs ++ rest) = cs ++ rest := by
  obtain ⟨c, tail, rfl, hspace, _⟩ := h
  apply skipSpace_eq
  intro d hd
  cases hd
  exact hspace

theorem value_plain (bounds : Bounds) (fuel depth : Nat) {c : Char} (tail : List Char)
    (hquote : c ≠ '"') (hbracket : c ≠ '[') (hbrace : c ≠ '\x7b') :
    value bounds (fuel + 1) depth (c :: tail) = plain bounds (c :: tail) := by
  rw [value]
  · exact fun _ heq => hquote (List.cons.inj heq).1
  · exact fun _ heq => hbracket (List.cons.inj heq).1
  · exact fun _ heq => hbrace (List.cons.inj heq).1

/-! ## words, numbers and texts -/

theorem word_reads (word : String) {v : Value} {c : Char} {tail : List Char}
    (hword : word.toList = c :: tail) (hc : c.isAlpha = true ∨ c = '-')
    (h : ∀ rest, plain {} (c :: tail ++ rest) = .ok (v, rest)) : Reads word.toList v := by
  have hmarks : isSpace c = false ∧ c ≠ ']' ∧ c ≠ '\x7d' ∧ c ≠ '"' ∧ c ≠ '[' ∧ c ≠ '\x7b' := by
    rcases hc with hc | rfl
    · refine ⟨?_, ?_, ?_, ?_, ?_, ?_⟩
      · unfold isSpace
        simp only [Bool.or_eq_false_iff, decide_eq_false_iff_not]
        refine ⟨⟨⟨?_, ?_⟩, ?_⟩, ?_⟩ <;> · rintro rfl; cases hc
      all_goals rintro rfl; cases hc
    · decide
  obtain ⟨hspace, hclose, hclose', hquote, hbracket, hbrace⟩ := hmarks
  rw [hword]
  refine ⟨⟨c, tail, rfl, hspace, hclose, hclose'⟩, ?_⟩
  intro fuel depth rest _ hfuel
  rw [List.length_cons] at hfuel
  obtain ⟨fuel, rfl⟩ : ∃ k, fuel = k + 1 := ⟨fuel - 1, by omega⟩
  rw [List.cons_append, value_plain {} fuel depth _ hquote hbracket hbrace]
  exact h rest

def Numeral (cs : List Char) : Prop :=
  ∃ negative d tail, cs = withSign negative (d :: tail) ∧ d.isDigit = true

theorem wholeDigits?_head {cs : List Char} {answer : List Char × List Char}
    (h : wholeDigits? cs = some answer) : ∃ d tail, cs = d :: tail ∧ d.isDigit = true := by
  unfold wholeDigits? at h
  split at h
  · exact ⟨'0', _, rfl, rfl⟩
  · dsimp only at h
    cases cs with
    | nil => cases h
    | cons d tail =>
      refine ⟨d, tail, rfl, ?_⟩
      by_contra hd
      rw [List.takeWhile_cons_of_neg hd] at h
      cases h

theorem numeral_of_number {bounds : Bounds} {cs : List Char} {answer : Value × List Char}
    (h : number bounds cs = .ok answer) : Numeral cs := by
  have hsome : ∃ negative ds whole, cs = withSign negative ds ∧ wholeDigits? ds = some whole := by
    unfold number at h
    split at h
    rename_i negative ds hsplit
    rcases hwhole : wholeDigits? ds with _ | whole
    · rw [hwhole] at h
      cases h
    · refine ⟨negative, ds, whole, ?_, hwhole⟩
      split at hsplit
      · cases hsplit
        rfl
      · cases hsplit
        rfl
  obtain ⟨negative, ds, whole, rfl, hwhole⟩ := hsome
  obtain ⟨d, tail, rfl, hd⟩ := wholeDigits?_head hwhole
  exact ⟨negative, d, tail, rfl, hd⟩

theorem digit_ne {c d : Char} (hd : d.isDigit = true) (hc : c.isDigit = false) : d ≠ c := by
  rintro rfl
  rw [hd] at hc
  cases hc

theorem plain_number (bounds : Bounds) {cs : List Char} (h : Numeral cs) :
    plain bounds cs = number bounds cs := by
  obtain ⟨negative, d, tail, rfl, hd⟩ := h
  have hn := digit_ne hd (c := 'n') rfl
  have ht := digit_ne hd (c := 't') rfl
  have hf := digit_ne hd (c := 'f') rfl
  have hN := digit_ne hd (c := 'N') rfl
  have hI := digit_ne hd (c := 'I') rfl
  have hnone : (words.findSome? fun entry =>
      (after? entry.1 (withSign negative (d :: tail))).map (entry.2, ·)) = none := by
    cases negative with
    | true =>
      simp [words, after?, withSign, hI.symm]
    | false =>
      have hminus := digit_ne hd (c := '-') rfl
      simp [words, after?, withSign, hn.symm, ht.symm, hf.symm, hN.symm, hI.symm, hminus.symm]
  unfold plain
  rw [hnone]

theorem number_reads {cs : List Char} {v : Value}
    (h : ∀ rest, Ends rest → number {} (cs ++ rest) = .ok (v, rest)) : Reads cs v := by
  have hends : Ends [] := fun c hc => by cases hc
  have hnumeral := numeral_of_number (h [] hends)
  rw [List.append_nil] at hnumeral
  obtain ⟨negative, d, tail, hcs, hd⟩ := hnumeral
  obtain ⟨c, tail, rfl, hc⟩ : ∃ c tail, cs = c :: tail ∧ (c.isDigit = true ∨ c = '-') := by
    cases negative with
    | true => exact ⟨'-', d :: tail, hcs, .inr rfl⟩
    | false => exact ⟨d, tail, hcs, .inl hd⟩
  have hmarks : isSpace c = false ∧ c ≠ ']' ∧ c ≠ '\x7d' ∧ c ≠ '"' ∧ c ≠ '[' ∧ c ≠ '\x7b' := by
    rcases hc with hc | rfl
    · refine ⟨?_, digit_ne hc rfl, digit_ne hc rfl, digit_ne hc rfl, digit_ne hc rfl,
        digit_ne hc rfl⟩
      unfold isSpace
      simp only [Bool.or_eq_false_iff, decide_eq_false_iff_not]
      exact ⟨⟨⟨digit_ne hc rfl, digit_ne hc rfl⟩, digit_ne hc rfl⟩, digit_ne hc rfl⟩
    · decide
  obtain ⟨hspace, hclose, hclose', hquote, hbracket, hbrace⟩ := hmarks
  refine ⟨⟨c, tail, rfl, hspace, hclose, hclose'⟩, ?_⟩
  intro fuel depth rest hrest hfuel
  rw [List.length_cons] at hfuel
  obtain ⟨fuel, rfl⟩ : ∃ k, fuel = k + 1 := ⟨fuel - 1, by omega⟩
  have hread := h rest hrest
  rw [List.cons_append] at hread ⊢
  rw [value_plain {} fuel depth _ hquote hbracket hbrace,
    plain_number {} (numeral_of_number hread), hread]

theorem quoted_reads (style : JsonStyle) (s : String) : Reads (style.text s.toList) (.str s) := by
  refine ⟨⟨'"', _, rfl, by decide, by decide, by decide⟩, ?_⟩
  intro fuel depth rest _ hfuel
  obtain ⟨fuel, rfl⟩ : ∃ k, fuel = k + 1 := ⟨fuel - 1, by
    have hpos : 1 ≤ (style.text s.toList).length := Nat.succ_pos _
    omega⟩
  have hread := text_read style {} s rest
  unfold JsonStyle.text
  rw [List.cons_append, List.append_assoc, List.singleton_append, value, hread]
  rfl

/-! ## lists -/

theorem ends_cons {c : Char} (rest : List Char) (h : c = ',' ∨ c = ':' ∨ c = ']' ∨ c = '\x7d') :
    Ends (c :: rest) := by
  intro d hd
  cases hd
  exact h

theorem joined_cons (separator text : List Char) {texts : List (List Char)} (hne : texts ≠ []) :
    Value.joined separator (text :: texts) = text ++ separator ++ Value.joined separator texts := by
  cases texts with
  | nil => exact absurd rfl hne
  | cons other texts => rfl

theorem joined_starts (separator : List Char) {texts : List (List Char)} (hne : texts ≠ [])
    (h : ∀ text ∈ texts, Starts text) : Starts (Value.joined separator texts) := by
  cases texts with
  | nil => exact absurd rfl hne
  | cons text texts =>
    have hstart := h text List.mem_cons_self
    by_cases hmore : texts = []
    · subst hmore
      exact hstart
    · obtain ⟨c, tail, rfl, hc⟩ := hstart
      rw [joined_cons separator _ hmore]
      exact ⟨c, _, rfl, hc⟩

theorem items_reads (parts : List (Value × List Char)) (h : ∀ p ∈ parts, Reads p.2 p.1)
    (hne : parts ≠ []) (fuel depth : Nat) (rest : List Char)
    (hfuel : 2 * (Value.joined [','] (parts.map Prod.snd)).length + 1 ≤ fuel) :
    items {} fuel depth (Value.joined [','] (parts.map Prod.snd) ++ ']' :: rest)
      = .ok (parts.map Prod.fst, rest) := by
  induction parts generalizing fuel with
  | nil => exact absurd rfl hne
  | cons p parts ih =>
    obtain ⟨fuel, rfl⟩ : ∃ k, fuel = k + 1 := ⟨fuel - 1, by omega⟩
    have hp := h p List.mem_cons_self
    have hparts := fun q hq => h q (List.mem_cons_of_mem _ hq)
    by_cases hmore : parts = []
    · subst hmore
      have hread := hp.reads fuel depth (']' :: rest) (ends_cons rest (by simp)) (by
        simp only [List.map_cons, List.map_nil, Value.joined] at hfuel
        omega)
      show items {} (fuel + 1) depth (p.2 ++ ']' :: rest) = .ok ([p.1], rest)
      rw [items, hread]
      rfl
    · have hmap : parts.map Prod.snd ≠ [] := by simpa using hmore
      rw [List.map_cons, joined_cons _ _ hmap, List.length_append, List.length_append,
        List.length_singleton] at hfuel
      have hread := hp.reads fuel depth
        (',' :: (Value.joined [','] (parts.map Prod.snd) ++ ']' :: rest)) (ends_cons _ (by simp))
        (by omega)
      have hothers := ih hparts hmore fuel (by omega)
      have hstarts : Starts (Value.joined [','] (parts.map Prod.snd)) := by
        apply joined_starts _ hmap
        intro text htext
        obtain ⟨q, hq, rfl⟩ := List.mem_map.mp htext
        exact (hparts q hq).starts
      have hskip := hstarts.skipSpace (']' :: rest)
      rw [List.map_cons, joined_cons _ _ hmap, List.append_assoc, List.append_assoc,
        List.singleton_append, items, hread]
      show (items {} fuel depth (skipSpace (Value.joined [','] (parts.map Prod.snd) ++ ']' :: rest))
        >>= _) = _
      rw [hskip, hothers]
      rfl

theorem bracketed_eq {style : JsonStyle} (hindent : style.indent = none) (depth : Nat)
    (opening closing : Char) {parts : List (List Char)} (hne : parts ≠ []) :
    style.bracketed depth opening closing parts
      = opening :: (Value.joined style.betweenItems.toList parts ++ [closing]) := by
  have hempty : parts.isEmpty = false := by
    cases parts with
    | nil => exact absurd rfl hne
    | cons => rfl
  unfold JsonStyle.bracketed JsonStyle.lineBreak
  rw [hindent, hempty]
  simp

theorem list_reads (depth : Nat) (parts : List (Value × List Char))
    (h : ∀ p ∈ parts, Reads p.2 p.1) :
    Reads (JsonStyle.key.bracketed depth '[' ']' (parts.map Prod.snd)) (.list (parts.map Prod.fst)) := by
  by_cases hne : parts = []
  · subst hne
    refine ⟨⟨'[', _, rfl, by decide, by decide, by decide⟩, ?_⟩
    intro fuel depth rest _ hfuel
    obtain ⟨fuel, rfl⟩ : ∃ k, fuel = k + 1 := ⟨fuel - 1, by
      have hlength : 2 * 2 ≤ fuel := hfuel
      omega⟩
    show value {} (fuel + 1) depth ('[' :: ']' :: rest) = _
    rw [value]
    rfl
  · have hmap : parts.map Prod.snd ≠ [] := by simpa using hne
    have hstarts : Starts (Value.joined [','] (parts.map Prod.snd)) := by
      apply joined_starts _ hmap
      intro text htext
      obtain ⟨q, hq, rfl⟩ := List.mem_map.mp htext
      exact (h q hq).starts
    rw [bracketed_eq rfl depth '[' ']' hmap]
    refine ⟨⟨'[', _, rfl, by decide, by decide, by decide⟩, ?_⟩
    intro fuel depth rest _ hfuel
    rw [List.length_cons, List.length_append, List.length_singleton] at hfuel
    obtain ⟨fuel, rfl⟩ : ∃ k, fuel = k + 1 := ⟨fuel - 1, by omega⟩
    have hlength : (JsonStyle.key.betweenItems.toList) = [','] := rfl
    rw [hlength] at hfuel ⊢
    have hitems := items_reads parts h hne fuel (depth + 1) rest (by omega)
    have hskip := hstarts.skipSpace (']' :: rest)
    obtain ⟨c, tail, hc, _, hclose, _⟩ := hstarts
    rw [hc, List.cons_append] at hskip hitems
    rw [List.cons_append, List.append_assoc, List.singleton_append, hc, List.cons_append, value]
    simp only [hskip]
    split
    · rename_i heq
      exact absurd (List.cons.inj heq).1 hclose
    · show (items {} fuel (depth + 1) (c :: (tail ++ ']' :: rest)) >>= _) = _
      rw [hitems]
      rfl

/-! ## records -/

def member (part : String × List Char) : List Char :=
  JsonStyle.key.text part.1.toList ++ ':' :: part.2

theorem member_starts (part : String × List Char) : Starts (member part) :=
  ⟨'"', _, rfl, by decide, by decide, by decide⟩

theorem entries_member (fuel depth : Nat) (soFar : List (String × Value)) (name : String)
    {v : Value} {cs rest : List Char} (h : Reads cs v) (hends : Ends rest)
    (hfuel : 2 * cs.length ≤ fuel) :
    entries {} (fuel + 1) depth soFar (member (name, cs) ++ rest)
      = match skipSpace rest with
        | '\x7d' :: after => .ok (Value.put name v soFar, after)
        | ',' :: more => entries {} fuel depth (Value.put name v soFar) (skipSpace more)
        | other => flaw "Expecting ',' delimiter" other := by
  have hname := text_read JsonStyle.key {} name (':' :: (cs ++ rest))
  have hvalue := h.reads fuel depth rest hends hfuel
  have hskip := h.starts.skipSpace rest
  have hcolon : skipSpace (':' :: (cs ++ rest)) = ':' :: (cs ++ rest) :=
    skipSpace_eq fun d hd => by cases hd; rfl
  unfold member JsonStyle.text
  rw [List.append_assoc, List.cons_append, List.append_assoc, List.singleton_append, List.cons_append,
    entries]
  simp only [hname, bind, Except.bind, hcolon, hskip, hvalue]
  rfl

theorem entries_reads (parts : List (String × Value × List Char))
    (h : ∀ p ∈ parts, Reads p.2.2 p.2.1) (hne : parts ≠ []) (fuel depth : Nat)
    (soFar : List (String × Value)) (rest : List Char)
    (hfuel : 2 * (Value.joined [','] (parts.map fun p => member (p.1, p.2.2))).length ≤ fuel) :
    entries {} fuel depth soFar
        (Value.joined [','] (parts.map fun p => member (p.1, p.2.2)) ++ '\x7d' :: rest)
      = .ok (Value.overlay soFar (parts.map fun p => (p.1, p.2.1)), rest) := by
  induction parts generalizing fuel soFar with
  | nil => exact absurd rfl hne
  | cons p parts ih =>
    obtain ⟨name, v, cs⟩ := p
    have hp : Reads cs v := h (name, v, cs) List.mem_cons_self
    have hparts := fun q hq => h q (List.mem_cons_of_mem _ hq)
    have hlength : cs.length + 3 ≤ (member (name, cs)).length := by
      unfold member JsonStyle.text
      simp only [List.length_append, List.length_cons, List.length_nil]
      omega
    by_cases hmore : parts = []
    · subst hmore
      have hsingle : 2 * (member (name, cs)).length ≤ fuel := hfuel
      obtain ⟨fuel, rfl⟩ : ∃ k, fuel = k + 1 := ⟨fuel - 1, by omega⟩
      have hread := entries_member fuel depth soFar name hp
        (ends_cons (c := '\x7d') rest (by simp)) (by omega)
      exact hread
    · have hmap : (parts.map fun p => member (p.1, p.2.2)) ≠ [] := by simpa using hmore
      rw [List.map_cons, joined_cons _ _ hmap, List.length_append, List.length_append,
        List.length_singleton] at hfuel
      dsimp only at hfuel
      obtain ⟨fuel, rfl⟩ : ∃ k, fuel = k + 1 := ⟨fuel - 1, by omega⟩
      have hothers := ih hparts hmore fuel (Value.put name v soFar) (by omega)
      have hstarts : Starts (Value.joined [','] (parts.map fun p => member (p.1, p.2.2))) := by
        apply joined_starts _ hmap
        intro text htext
        obtain ⟨q, hq, rfl⟩ := List.mem_map.mp htext
        exact member_starts _
      have hskip := hstarts.skipSpace ('\x7d' :: rest)
      have hread := entries_member fuel depth soFar name hp
        (ends_cons (c := ',') (Value.joined [','] (parts.map fun p => member (p.1, p.2.2))
          ++ '\x7d' :: rest) (by simp)) (by omega)
      rw [List.map_cons, joined_cons _ _ hmap, List.append_assoc, List.append_assoc,
        List.singleton_append]
      apply hread.trans
      show entries {} fuel depth (Value.put name v soFar) (skipSpace
        (Value.joined [','] (parts.map fun p => member (p.1, p.2.2)) ++ '\x7d' :: rest)) = _
      rw [hskip]
      exact hothers

theorem record_reads (depth : Nat) (parts : List (String × Value × List Char))
    (hnames : (parts.map Prod.fst).Nodup) (h : ∀ p ∈ parts, Reads p.2.2 p.2.1) :
    Reads (JsonStyle.key.bracketed depth '\x7b' '\x7d' (parts.map fun p => member (p.1, p.2.2)))
      (.record (parts.map fun p => (p.1, p.2.1))) := by
  by_cases hne : parts = []
  · subst hne
    refine ⟨⟨'\x7b', _, rfl, by decide, by decide, by decide⟩, ?_⟩
    intro fuel depth rest _ hfuel
    obtain ⟨fuel, rfl⟩ : ∃ k, fuel = k + 1 := ⟨fuel - 1, by
      have hlength : 2 * 2 ≤ fuel := hfuel
      omega⟩
    show value {} (fuel + 1) depth ('\x7b' :: '\x7d' :: rest) = _
    rw [value]
    rfl
  · have hmap : (parts.map fun p => member (p.1, p.2.2)) ≠ [] := by simpa using hne
    have hstarts : Starts (Value.joined [','] (parts.map fun p => member (p.1, p.2.2))) := by
      apply joined_starts _ hmap
      intro text htext
      obtain ⟨q, hq, rfl⟩ := List.mem_map.mp htext
      exact member_starts _
    rw [bracketed_eq rfl depth '\x7b' '\x7d' hmap]
    refine ⟨⟨'\x7b', _, rfl, by decide, by decide, by decide⟩, ?_⟩
    intro fuel depth rest _ hfuel
    rw [List.length_cons, List.length_append, List.length_singleton] at hfuel
    obtain ⟨fuel, rfl⟩ : ∃ k, fuel = k + 1 := ⟨fuel - 1, by omega⟩
    have hlength : (JsonStyle.key.betweenItems.toList) = [','] := rfl
    rw [hlength] at hfuel ⊢
    have hentries := entries_reads parts h hne fuel (depth + 1) [] rest (by omega)
    have hnames' : ((parts.map fun p => (p.1, p.2.1)).map Prod.fst).Nodup := by
      rw [List.map_map]
      exact hnames
    rw [Value.overlay_new hnames' [] fun _ _ => List.not_mem_nil, List.nil_append] at hentries
    have hskip := hstarts.skipSpace ('\x7d' :: rest)
    obtain ⟨c, tail, hc, _, _, hclose⟩ := hstarts
    rw [hc, List.cons_append] at hskip hentries
    rw [List.cons_append, List.append_assoc, List.singleton_append, hc, List.cons_append, value]
    simp only [hskip]
    split
    · rename_i heq
      exact absurd (List.cons.inj heq).1 hclose
    · show (entries {} fuel (depth + 1) [] (c :: (tail ++ '\x7d' :: rest)) >>= _) = _
      rw [hentries]
      rfl

/-! ## what is written -/

/-- the members of an object, which come in the order of their names -/
theorem object_reads (depth : Nat) (parts : List (String × Value × List Char))
    (hnames : (parts.map Prod.fst).Nodup) (h : ∀ p ∈ parts, Reads p.2.2 p.2.1) :
    Reads (JsonStyle.key.object depth (parts.map fun p => (p.1, p.2.2)))
      (.record (JsonStyle.byName (parts.map fun p => (p.1, p.2.1)))) := by
  have hperm := JsonStyle.byName_perm parts
  have hsorted := record_reads depth (JsonStyle.byName parts)
    ((hperm.map Prod.fst).nodup_iff.mpr hnames) (fun p hp => h p (hperm.mem_iff.mp hp))
  have htexts : JsonStyle.key.object depth (parts.map fun p => (p.1, p.2.2))
      = JsonStyle.key.bracketed depth '\x7b' '\x7d'
        ((JsonStyle.byName parts).map fun p => member (p.1, p.2.2)) := by
    unfold JsonStyle.object
    rw [JsonStyle.byName_map (fun p : Value × List Char => p.2) parts]
    have hstyle : JsonStyle.key.sorted = true := rfl
    dsimp only
    rw [if_pos hstyle, List.map_map]
    refine congrArg _ (List.map_congr_left fun p _ => ?_)
    show JsonStyle.key.text p.1.toList ++ [':'] ++ p.2.2 = _
    rw [List.append_assoc]
    rfl
  rw [htexts, JsonStyle.byName_map (fun p : Value × List Char => p.1) parts]
  exact hsorted

theorem other_reads (depth : Nat) {v : Value} (hkept : v.kept = .str v.display)
    (h : JsonStyle.key.write depth v = JsonStyle.key.shown v) :
    ∃ cs, JsonStyle.key.write depth v = Value.legible v.hasText cs ∧ Reads cs v.kept := by
  refine ⟨_, h.trans (JsonStyle.shown_eq _ v), ?_⟩
  rw [hkept]
  exact quoted_reads JsonStyle.key v.display

mutual

/-- what is written of a value, where its integers are short enough, reads back as what JSON keeps of
it -/
theorem value_reads : (v : Value) → v.Regular → ∀ depth,
    ∃ cs, JsonStyle.key.write depth v = Value.legible v.hasText cs ∧ Reads cs v.kept
  | .null, _, _ => ⟨_, by rw [JsonStyle.write]; rfl, word_reads "null" rfl (.inl rfl) fun _ => rfl⟩
  | .bool true, _, _ => ⟨_, by rw [JsonStyle.write]; rfl, word_reads "true" rfl (.inl rfl) fun _ => rfl⟩
  | .bool false, _, _ =>
    ⟨_, by rw [JsonStyle.write]; rfl, word_reads "false" rfl (.inl rfl) fun _ => rfl⟩
  | .int n, _, _ => ⟨_, by rw [JsonStyle.write]; exact Value.integerText_eq n,
      number_reads fun _ => integer_read n⟩
  | .float (.nan _), _, _ =>
    ⟨_, by rw [JsonStyle.write]; rfl, word_reads "NaN" rfl (.inl rfl) fun _ => rfl⟩
  | .float (.infinity true), _, _ =>
    ⟨_, by rw [JsonStyle.write]; rfl, word_reads "-Infinity" rfl (.inr rfl) fun _ => rfl⟩
  | .float (.infinity false), _, _ =>
    ⟨_, by rw [JsonStyle.write]; rfl, word_reads "Infinity" rfl (.inl rfl) fun _ => rfl⟩
  | .float (.finite negative m e), h, _ => by
    rw [Value.Regular] at h
    exact ⟨_, by rw [JsonStyle.write]; rfl, number_reads fun _ => double_read _ negative h⟩
  | .str s, _, _ => ⟨_, by rw [JsonStyle.write]; rfl, quoted_reads _ s⟩
  | .list items, h, depth => by
    rw [Value.Regular] at h
    obtain ⟨parts, hwrite, hkept, hreads⟩ := all_reads items h (depth + 1)
    refine ⟨_, by rw [JsonStyle.write, hwrite]; exact Value.legible_map _ _, ?_⟩
    rw [Value.kept, ← hkept]
    exact list_reads depth parts hreads
  | .tuple items, h, depth => by
    rw [Value.Regular] at h
    obtain ⟨parts, hwrite, hkept, hreads⟩ := all_reads items h (depth + 1)
    refine ⟨_, by rw [JsonStyle.write, hwrite]; exact Value.legible_map _ _, ?_⟩
    rw [Value.kept, ← hkept]
    exact list_reads depth parts hreads
  | .record entries, h, depth => by
    rw [Value.Regular] at h
    obtain ⟨parts, hwrite, hkept, hreads⟩ := members_reads entries h.2 (depth + 1)
    have hnames : (parts.map Prod.fst).Nodup := by
      have hmap : parts.map Prod.fst = entries.map (·.1) := by
        rw [← Value.keptEntries_names, ← hkept, List.map_map]
        rfl
      rw [hmap]
      exact h.1
    refine ⟨_, by rw [JsonStyle.write, hwrite]; exact Value.legible_map _ _, ?_⟩
    rw [Value.kept, ← hkept]
    exact object_reads depth parts hnames hreads
  | .set items, _, depth => other_reads depth rfl (by rw [JsonStyle.write]; rfl)
  | .date d, _, depth => other_reads depth rfl (by rw [JsonStyle.write]; rfl)
  | .instant t, _, depth => other_reads depth rfl (by rw [JsonStyle.write]; rfl)
  | .object attributes, _, depth => other_reads depth rfl (by rw [JsonStyle.write]; rfl)
  | .pageMeta m, _, depth => other_reads depth rfl (by rw [JsonStyle.write]; rfl)
  | .unset, _, depth => other_reads depth rfl (by rw [JsonStyle.write]; rfl)
  | .condition c, _, depth => other_reads depth rfl (by rw [JsonStyle.write]; rfl)
  | .operation owner name, _, depth => other_reads depth rfl (by rw [JsonStyle.write]; rfl)
  | .kind k, _, depth => other_reads depth rfl (by rw [JsonStyle.write]; rfl)
  | .zone us, _, depth => other_reads depth rfl (by rw [JsonStyle.write]; rfl)
  | .duration us, _, depth => other_reads depth rfl (by rw [JsonStyle.write]; rfl)

theorem all_reads : (items : List Value) → Value.RegularAll items → ∀ depth,
    ∃ parts : List (Value × List Char),
      JsonStyle.key.writeAll depth items
          = Value.legible (Value.allHaveText items) (parts.map Prod.snd) ∧
        parts.map Prod.fst = Value.keptAll items ∧ ∀ p ∈ parts, Reads p.2 p.1
  | [], _, depth => ⟨[], by rw [JsonStyle.writeAll]; rfl, by rw [Value.keptAll]; rfl, by simp⟩
  | v :: rest, h, depth => by
    rw [Value.RegularAll] at h
    obtain ⟨cs, hwrite, hread⟩ := value_reads v h.1 depth
    obtain ⟨parts, hwrites, hkept, hreads⟩ := all_reads rest h.2 depth
    refine ⟨(v.kept, cs) :: parts, ?_, ?_, ?_⟩
    · rw [JsonStyle.writeAll, hwrite, hwrites]
      exact Value.legible_pair _ _ _
    · rw [Value.keptAll, ← hkept]
      rfl
    · rw [List.forall_mem_cons]
      exact ⟨hread, hreads⟩

theorem members_reads : (entries : List (String × Value)) → Value.RegularEntries entries → ∀ depth,
    ∃ parts : List (String × Value × List Char),
      JsonStyle.key.writeEntries depth entries
          = Value.legible (Value.entriesHaveText entries) (parts.map fun p => (p.1, p.2.2)) ∧
        (parts.map fun p => (p.1, p.2.1)) = Value.keptEntries entries ∧
        ∀ p ∈ parts, Reads p.2.2 p.2.1
  | [], _, depth => ⟨[], by rw [JsonStyle.writeEntries]; rfl, by rw [Value.keptEntries]; rfl, by simp⟩
  | (name, v) :: rest, h, depth => by
    rw [Value.RegularEntries] at h
    obtain ⟨cs, hwrite, hread⟩ := value_reads v h.1 depth
    obtain ⟨parts, hwrites, hkept, hreads⟩ := members_reads rest h.2 depth
    refine ⟨(name, v.kept, cs) :: parts, ?_, ?_, ?_⟩
    · rw [JsonStyle.writeEntries, hwrite, hwrites]
      exact Value.legible_pair _ _ _
    · rw [Value.keptEntries, ← hkept]
      rfl
    · rw [List.forall_mem_cons]
      exact ⟨hread, hreads⟩

end

theorem Reads.unique {cs ds rest other : List Char} {v w : Value} (hv : Reads cs v)
    (hw : Reads ds w) (hrest : Ends rest) (hother : Ends other) (h : cs ++ rest = ds ++ other) :
    v = w ∧ rest = other := by
  have hread := hv.reads (2 * cs.length + 2 * ds.length) 0 rest hrest (by omega)
  have hread' := hw.reads (2 * cs.length + 2 * ds.length) 0 other hother (by omega)
  rw [h, hread'] at hread
  cases hread
  exact ⟨rfl, rfl⟩

end Json

/-! ## texts of all values -/

namespace JsonStyle

mutual

/-- a style that takes what JSON does not know as its text, at any depth, has a text for every value
in which no integer is too long -/
theorem write_legible {style : JsonStyle} (hothers : style.others = .display)
    (hdeepest : style.deepest = none) (depth : Nat) (v : Value) :
    ∃ text, style.write depth v = Value.legible v.hasText text := by
  have hcontent : style.others ≠ .content := by rw [hothers]; decide
  have hshown (w : Value) : ∃ text, style.shown w = Value.legible w.hasText text :=
    ⟨_, shown_eq style w⟩
  cases v with
  | list items | tuple items =>
    obtain ⟨texts, htexts⟩ := writeAll_legible hothers hdeepest (depth + 1) items
    rw [write, htexts]
    exact ⟨_, Value.legible_map _ _⟩
  | record entries =>
    obtain ⟨texts, htexts⟩ := writeEntries_legible hothers hdeepest (depth + 1) entries
    rw [write, htexts]
    exact ⟨_, Value.legible_map _ _⟩
  | set items | condition c =>
    rw [write, if_neg hcontent]
    exact hshown _
  | pageMeta m =>
    rw [write, if_pos hothers]
    exact hshown _
  | object attributes | unset | operation owner name | kind k | zone us | duration us =>
    rw [write, asText, hothers]
    exact hshown _
  | int n =>
    rw [write]
    exact ⟨_, integer_eq hcontent n⟩
  | null | bool b | float x | str s | date d | instant t =>
    rw [write]
    exact ⟨_, rfl⟩

theorem writeAll_legible {style : JsonStyle} (hothers : style.others = .display)
    (hdeepest : style.deepest = none) (depth : Nat) (items : List Value) :
    ∃ texts, style.writeAll depth items = Value.legible (Value.allHaveText items) texts := by
  cases items with
  | nil => exact ⟨[], rfl⟩
  | cons v rest =>
    obtain ⟨text, htext⟩ := write_legible hothers hdeepest depth v
    obtain ⟨texts, htexts⟩ := writeAll_legible hothers hdeepest depth rest
    rw [writeAll, checkDepth, hdeepest, htext, htexts]
    exact ⟨_, Value.legible_pair _ _ _⟩

theorem writeEntries_legible {style : JsonStyle} (hothers : style.others = .display)
    (hdeepest : style.deepest = none) (depth : Nat) (entries : List (String × Value)) :
    ∃ texts, style.writeEntries depth entries
      = Value.legible (Value.entriesHaveText entries) texts := by
  cases entries with
  | nil => exact ⟨[], rfl⟩
  | cons entry rest =>
    obtain ⟨name, v⟩ := entry
    obtain ⟨text, htext⟩ := write_legible hothers hdeepest depth v
    obtain ⟨texts, htexts⟩ := writeEntries_legible hothers hdeepest depth rest
    rw [writeEntries, checkDepth, hdeepest, htext, htexts]
    exact ⟨_, Value.legible_pair _ _ _⟩

end

end JsonStyle

/-! ## texts in exports -/

namespace Value

/-- a value without a form in JSON has a text, and nothing in its place -/
def plainText (v : Value) : Bool := !v.has "model_dump" && v.hasText

mutual

/-- an export has a text for a value: no integer in it has too many digits, and what has no form in
JSON does not say that it had one -/
def exportable : Value → Bool
  | .list items => allExportable items
  | .tuple items => allExportable items
  | .record entries => entriesExportable entries
  | .object attributes => plainText (.object attributes)
  | .unset => plainText .unset
  | .operation owner name => plainText (.operation owner name)
  | .kind k => plainText (.kind k)
  | .zone us => plainText (.zone us)
  | .duration us => plainText (.duration us)
  | v => hasText v

def allExportable : List Value → Bool
  | [] => true
  | v :: rest => exportable v && allExportable rest

def entriesExportable : List (String × Value) → Bool
  | [] => true
  | (_, v) :: rest => exportable v && entriesExportable rest

end

end Value

namespace JsonStyle

theorem isOk_shown (style : JsonStyle) (v : Value) : (style.shown v).isOk = v.hasText := by
  rw [shown, Outcome.isOk_map, Value.text_isOk]

section
variable {style : JsonStyle}

theorem isOk_asText (hothers : style.others = .iso) (v : Value) (k : Kind) :
    (style.asText v k).isOk = v.plainText := by
  rw [asText, hothers, Value.plainText]
  cases v.has "model_dump" with
  | false => exact isOk_shown style v
  | true => rfl

mutual

theorem write_isOk (hothers : style.others = .iso) (hdeepest : style.deepest = none) (depth : Nat) :
    (v : Value) → (style.write depth v).isOk = v.exportable
  | .list items => by
    rw [write, Outcome.isOk_map, writeAll_isOk hothers hdeepest (depth + 1) items]
    rfl
  | .tuple items => by
    rw [write, Outcome.isOk_map, writeAll_isOk hothers hdeepest (depth + 1) items]
    rfl
  | .record entries => by
    rw [write, Outcome.isOk_map, writeEntries_isOk hothers hdeepest (depth + 1) entries]
    rfl
  | .set _ | .condition _ => by
    rw [write, if_neg (by rw [hothers]; decide)]
    exact isOk_shown style _
  | .pageMeta m => by
    rw [write, if_neg (by rw [hothers]; decide), counts_eq (by rw [hothers]; decide)]
    exact Value.legible_isOk _ _
  | .object _ | .unset | .operation _ _ | .kind _ | .zone _ | .duration _ => by
    rw [write]
    exact isOk_asText hothers _ _
  | .int n => by
    rw [write, integer_eq (by rw [hothers]; decide)]
    exact Value.legible_isOk _ _
  | .null | .bool _ | .float _ | .str _ | .date _ | .instant _ => by
    rw [write]
    rfl

theorem writeAll_isOk (hothers : style.others = .iso) (hdeepest : style.deepest = none)
    (depth : Nat) : (items : List Value) →
    (style.writeAll depth items).isOk = Value.allExportable items
  | [] => rfl
  | v :: rest => by
    rw [writeAll, checkDepth, hdeepest, Outcome.ok_bind, Outcome.isOk_pair,
      write_isOk hothers hdeepest depth v, writeAll_isOk hothers hdeepest depth rest]
    rfl

theorem writeEntries_isOk (hothers : style.others = .iso) (hdeepest : style.deepest = none)
    (depth : Nat) : (entries : List (String × Value)) →
    (style.writeEntries depth entries).isOk = Value.entriesExportable entries
  | [] => rfl
  | (name, v) :: rest => by
    rw [writeEntries, checkDepth, hdeepest, Outcome.ok_bind, Outcome.isOk_pair,
      write_isOk hothers hdeepest depth v, writeEntries_isOk hothers hdeepest depth rest]
    rfl

end

end

end JsonStyle

end ListQuery
