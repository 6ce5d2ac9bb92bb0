import ListQuery.Proofs.Request.Meaning
import ListQuery.Proofs.Text.Lower
import ListQuery.Proofs.Value.Text

/-!
# Terms that stand in a text as they are

A search matches the lower case of its term with that of the text.  The whole text is always found.
A part of it is found where the capital sigmas of the part end words in the text exactly if they do in
the part by itself; at the start of the text it is found only there.

* `Predicate.Finds`               a search finds a row;
* `Predicate.plain_found`         terms without capital sigmas are found wherever they stand;
* `Predicate.literal_found`       when a term is found because it stands in a text;
* `Predicate.sigma_missed`        a term that is not.
-/

namespace ListQuery

namespace Predicate

/-- a search for a term finds a row by some of the fields -/
def Finds (mode : SearchMode) (term : String) (fields : List String) (row : Value) : Prop :=
  (search mode (.str term) fields).evaluate row = .ok true

def Holds (s : String) (v : Value) : Prop := v = .str s ∨ ∃ items, v = .list items ∧ .str s ∈ items

section
variable {mode : SearchMode} {term s path : String} {fields : List String} {row : Value}

/-- a search finds a row by a field that matches, and by no other -/
theorem finds_iff (hterm : term ≠ "") (hfields : fields ≠ [])
    (htexts : ∀ path ∈ fields, Condition.eachItem Value.hasText (row.resolve path) = true) :
    Finds mode term fields row ↔
      ∃ path ∈ fields, Condition.someItem (mode.matches term) (row.resolve path) = true := by
  have hevaluate : (search mode (.str term) fields).evaluate row
      = .ok (term == "" || fields.isEmpty ||
          fields.any fun path => Condition.someItem (mode.matches term) (row.resolve path)) := by
    have hdecides := search_decides mode (some term) fields row
    simp only [Value.text_isOk, List.all_eq_true.mpr htexts, Bool.or_true] at hdecides
    exact hdecides.answered
  have hgiven : (term == "" || fields.isEmpty) = false := by
    rw [Bool.or_eq_false_iff, beq_eq_false_iff_ne, List.isEmpty_eq_false_iff]
    exact ⟨hterm, hfields⟩
  rw [hgiven, Bool.false_or] at hevaluate
  rw [Finds, ← List.any_eq_true]
  exact ⟨fun h => Except.ok.inj (hevaluate.symm.trans h), fun h => hevaluate.trans (congrArg _ h)⟩

theorem finds_of_matches (hterm : term ≠ "") (hpath : path ∈ fields)
    (htexts : ∀ path ∈ fields, Condition.eachItem Value.hasText (row.resolve path) = true)
    (hholds : Holds s (row.resolve path)) (h : mode.matches term (.str s) = true) :
    Finds mode term fields row := by
  refine (finds_iff hterm (List.ne_nil_of_mem hpath) htexts).mpr ⟨path, hpath, ?_⟩
  rcases hholds with heq | ⟨items, heq, hs⟩
  · rw [heq]
    exact h
  · rw [heq]
    exact List.any_eq_true.mpr ⟨_, hs, h⟩

theorem matches_startsWith_iff :
    SearchMode.matches .startsWith term (.str s) = true
      ↔ Text.lowerFrom [] term.toList <+: Text.lowerFrom [] s.toList :=
  Text.startsWith_iff

theorem matches_contains_iff :
    SearchMode.matches .contains term (.str s) = true
      ↔ Text.lowerFrom [] term.toList <:+: Text.lowerFrom [] s.toList :=
  Text.occursIn_iff

theorem matches_exact (s : String) : SearchMode.matches .exact s (.str s) = true :=
  beq_self_eq_true _

/-- a start of the text matches exactly if its sigmas are kept -/
theorem matches_start_iff {after : List Char} (hs : s.toList = term.toList ++ after) :
    SearchMode.matches .startsWith term (.str s) = true ↔ Text.SigmasKept [] term.toList after := by
  rw [matches_startsWith_iff, hs]
  exact Text.prefix_lowerFrom_iff

/-- a part of the text matches where its sigmas are kept -/
theorem matches_part {before after : List Char} (hs : s.toList = before ++ term.toList ++ after)
    (hkept : Text.SigmasKept before.reverse term.toList after) :
    SearchMode.matches .contains term (.str s) = true := by
  rw [matches_contains_iff, hs]
  exact Text.infix_lowerFrom hkept

/-- a term without capital sigmas is found wherever it stands -/
theorem plain_found (hplain : 'Σ' ∉ term.toList) (hterm : term ≠ "") (hpath : path ∈ fields)
    (htexts : ∀ path ∈ fields, Condition.eachItem Value.hasText (row.resolve path) = true)
    (hholds : Holds s (row.resolve path)) :
    (term.toList <+: s.toList → Finds .startsWith term fields row) ∧
      (term.toList <:+: s.toList → Finds .contains term fields row) := by
  refine ⟨?_, ?_⟩
  · rintro ⟨after, hs⟩
    have hkept := Text.sigmasKept_of_notMem hplain [] after
    exact finds_of_matches hterm hpath htexts hholds ((matches_start_iff hs.symm).mpr hkept)
  · rintro ⟨before, after, hs⟩
    have hkept := Text.sigmasKept_of_notMem hplain before.reverse after
    exact finds_of_matches hterm hpath htexts hholds (matches_part hs.symm hkept)

/-- A text that a searched field holds is found by an exact search for it.  What stands at its start is
found by a prefix search where its sigmas are kept, and by that field only there.  What stands in it is
found by a search within where its sigmas are kept at some of the places.  A term without capital
sigmas is found wherever it stands.  The other values that are searched have to have texts. -/
theorem literal_found (hpath : path ∈ fields) (hholds : Holds s (row.resolve path))
    (hterm : term ≠ "")
    (htexts : ∀ path ∈ fields, Condition.eachItem Value.hasText (row.resolve path) = true) :
    (term = s → Finds .exact term fields row) ∧
      (∀ after, s.toList = term.toList ++ after →
        (Text.SigmasKept [] term.toList after → Finds .startsWith term fields row) ∧
          (row.resolve path = .str s →
            (Finds .startsWith term [path] row ↔ Text.SigmasKept [] term.toList after))) ∧
      (∀ before after, s.toList = before ++ term.toList ++ after →
        Text.SigmasKept before.reverse term.toList after → Finds .contains term fields row) ∧
      ('Σ' ∉ term.toList →
        (term.toList <+: s.toList → Finds .startsWith term fields row) ∧
          (term.toList <:+: s.toList → Finds .contains term fields row)) := by
  refine ⟨fun heq => ?_, fun after hs => ⟨fun hkept => ?_, fun hfield => ?_⟩,
    fun before after hs hkept => ?_, fun hplain => plain_found hplain hterm hpath htexts hholds⟩
  · subst heq
    exact finds_of_matches hterm hpath htexts hholds (matches_exact term)
  · exact finds_of_matches hterm hpath htexts hholds ((matches_start_iff hs).mpr hkept)
  · rw [finds_iff hterm (List.cons_ne_nil _ _) fun p hp => List.mem_singleton.mp hp ▸ htexts _ hpath,
      ← matches_start_iff hs]
    simp only [List.mem_singleton, exists_eq_left, hfield]
    rfl
  · exact finds_of_matches hterm hpath htexts hholds (matches_part hs hkept)

end

/-- a word that ends in a sigma, in a line that it starts -/
theorem odos_found :
    let row : Value := .record [("line", .str "ΟΔΟΣ 7")]
    "line" ∈ ["line"] ∧ Holds "ΟΔΟΣ 7" (row.resolve "line") ∧ "ΟΔΟΣ" ≠ "" ∧
      (∀ path ∈ ["line"], Condition.eachItem Value.hasText (row.resolve path) = true) ∧
      Finds .startsWith "ΟΔΟΣ" ["line"] row ∧ Finds .contains "ΟΔΟΣ" ["line"] row := by
  intro row
  have hholds : Holds "ΟΔΟΣ 7" (row.resolve "line") := .inl rfl
  have hkept : Text.SigmasKept [] "ΟΔΟΣ".toList " 7".toList :=
    Text.lowerWithin_eq_iff.mp (by decide)
  have htexts : ∀ path ∈ ["line"], Condition.eachItem Value.hasText (row.resolve path) = true :=
    List.forall_mem_singleton.mpr rfl
  obtain ⟨_, hstart, hwithin, _⟩ :=
    literal_found List.mem_cons_self hholds (by decide : "ΟΔΟΣ" ≠ "") htexts
  exact ⟨List.mem_cons_self, hholds, by decide, htexts, (hstart _ (by decide)).1 hkept,
    hwithin [] _ (by decide) hkept⟩

/-- Two letters of a word, the second a sigma that ends a word only where they stand by themselves. -/
theorem sigma_missed :
    let row : Value := .record [("name", .str "ΑΣΑ")]
    "ΑΣΑ".toList = "ΑΣ".toList ++ "Α".toList ∧
      (search .contains (.str "ΑΣ") ["name"]).evaluate row = .ok false ∧
      (search .startsWith (.str "ΑΣ") ["name"]).evaluate row = .ok false := by
  intro row
  exact ⟨by decide, rfl, rfl⟩

end Predicate

end ListQuery
