import GittyUp.Lib.Json
import GittyUp.Meme.Map
/-!
# The list of memes as text

`meme_list` and `meme_search` write no escapes. `answerList_ok` says that for
valid rows the pages read it back: `web/memes/list.js` parses the body as JSON
and splits each string at the colons.
-/
open Lib Lib.Sql GittyUp.Http GittyUp.SqlLib

namespace GittyUp.Meme

def colon : Byte := ':'

/-- What `populateList` makes of the body. -/
def decodeList (body : Str) : Option (List (List Str)) := (Json.strings body).map (·.map (·.splitOn colon))

/-- The fields of an entry, in the order in which they are written. -/
def Record.wire (m : Record) : List Str := [m.id, m.timesViewed, m.memeTemplate, m.topCaption, m.bottomCaption]

def Record.views (m : Record) : ℤ := digitsVal m.timesViewed

/-- The body stands for these memes, those with the most views first. -/
def WireFormat (body : Str) (ms : List Record) : Prop :=
  ∃ listed : List Record, decodeList body = some (listed.map Record.wire) ∧ listed.Perm ms ∧
    listed.Pairwise fun m m' => m'.views ≤ m.views

/-! ## The loop -/

theorem reverse_index {α : Type} (d : α) (l : List α) :
    (List.range l.length).map (fun i => l.getD (l.length - 1 - i) d) = l.reverse := by
  refine List.ext_getElem (by simp) fun i h1 h2 => ?_
  rw [List.length_map, List.length_range] at h1
  rw [List.getElem_map, List.getElem_range, List.getElem_reverse, List.getD_eq_getElem?_getD,
    List.getElem?_eq_getElem (by omega)]
  rfl

/-- The loop on the rows in the order in which it visits them. -/
theorem foldl_entries (entries : List Str) (output : Str) :
    (entries.foldl (fun acc e => (acc.1 ++ (if acc.2 then str "," else []) ++ e, true)) (output, true)).1 =
      output ++ entries.flatMap (str "," ++ ·) := by
  induction entries generalizing output with
  | nil => simp
  | cons e es ih =>
    rw [List.foldl_cons, ih]
    simp

theorem intercalate_flatMap (sep e : Str) (es : List Str) :
    sep.intercalate (e :: es) = e ++ es.flatMap (sep ++ ·) := by
  induction es generalizing e with
  | nil => simp
  | cons e' es ih =>
    rw [List.intercalate_cons_cons, ih]
    simp

theorem mem_intercalate {c : Byte} {sep : Str} {ls : List Str} (h : c ∈ sep.intercalate ls) :
    c ∈ sep ∨ ∃ l ∈ ls, c ∈ l := by
  cases ls with
  | nil => cases h
  | cons e es =>
    rw [intercalate_flatMap, List.mem_append, List.mem_flatMap] at h
    rcases h with h | ⟨l, hl, h⟩
    · exact .inr ⟨e, List.mem_cons_self, h⟩
    · rcases List.mem_append.1 h with h | h
      · exact .inl h
      · exact .inr ⟨l, List.mem_cons_of_mem _ hl, h⟩

theorem listOutput_eq (result : List Row) :
    listOutput result = str "[" ++ (str ",").intercalate (result.reverse.map listEntry) ++ str "]" := by
  have hturn : (List.range result.length).foldl (listTurn result) (str "[", false) =
      (result.reverse.map listEntry).foldl (fun acc e => (acc.1 ++ (if acc.2 then str "," else []) ++ e, true))
        (str "[", false) := by
    rw [← reverse_index [] result, List.map_map, List.foldl_map]
    rfl
  unfold listOutput
  rw [hturn]
  cases result.reverse.map listEntry with
  | nil => rfl
  | cons e es =>
    rw [List.foldl_cons]
    simp only [Bool.false_eq_true, if_false, List.append_nil]
    rw [foldl_entries, intercalate_flatMap, List.append_assoc (str "[")]

/-! ## Reading it back -/

/-- A character that neither ends a string nor splits it. -/
def isField (c : Byte) : Bool := Json.isPlain c && c ≠ colon

theorem isCaption_isField (c : Byte) : isCaption c = true → isField c = true := by
  revert c
  exact forall_byte (by decide +kernel)

theorem isDigit_isField (c : Byte) : isDigit c = true → isField c = true := by
  revert c
  exact forall_byte (by decide +kernel)

theorem isHexDigit_isField (c : Byte) : isHexDigit c = true ∨ c = hyphen → isField c = true := by
  revert c
  exact forall_byte (by decide +kernel)

theorem wire_isField (x : MemeId) (a : Entry) : ∀ s ∈ (record x a).wire, ∀ c ∈ s, isField c = true := by
  obtain ⟨ht, hp, hb⟩ := a.valid
  intro s hs c hc
  simp only [Record.wire, record, List.mem_cons, List.not_mem_nil, or_false] at hs
  rcases hs with rfl | rfl | rfl | rfl | rfl
  · exact isHexDigit_isField c (checkId_chars x.valid c hc)
  · exact isDigit_isField c (dec_digits _ c hc)
  · exact isCaption_isField c (ht.2 c hc)
  · exact isCaption_isField c (hp.2 c hc)
  · exact isCaption_isField c (hb.2 c hc)

theorem listEntry_row (m : Record) : listEntry m.row = Json.quoted ([colon].intercalate m.wire) := by
  simp [listEntry, Record.row, Record.wire, entry, Json.quoted, str, colon]

/-- The pages read the fields of valid memes. -/
theorem decodeList_listOutput {ms : List Record} (h : ∀ m ∈ ms, ∀ s ∈ m.wire, ∀ c ∈ s, isField c = true) :
    decodeList (listOutput (ms.map Record.row)) = some (ms.reverse.map Record.wire) := by
  have htext : listOutput (ms.map Record.row) = Json.array (ms.reverse.map fun m => [colon].intercalate m.wire) := by
    have : listEntry ∘ Record.row = Json.quoted ∘ fun m => [colon].intercalate m.wire := funext listEntry_row
    rw [listOutput_eq, Json.array, ← List.map_reverse, List.map_map, List.map_map, this]
  have hplain : ∀ t ∈ ms.reverse.map (fun m => [colon].intercalate m.wire), ∀ c ∈ t, Json.isPlain c := by
    intro t ht c hc
    obtain ⟨m, hm, rfl⟩ := List.mem_map.1 ht
    rcases mem_intercalate hc with hc | ⟨s, hs, hc⟩
    · rw [List.mem_singleton.1 hc]
      decide
    · have := h m (List.mem_reverse.1 hm) s hs c hc
      exact (Bool.and_eq_true_iff.1 this).1
  unfold decodeList
  rw [htext, Json.strings_array hplain, Option.map_some, List.map_map]
  congr 1
  refine List.map_congr_left fun m hm => List.splitOn_intercalate colon (fun s hs hc => ?_) (by simp [Record.wire])
  have := h m (List.mem_reverse.1 hm) s hs colon hc
  exact absurd this (by decide)

/-! ## The answer -/

theorem compareMemes_record (x y : MemeId) {a b : Entry} (ha : a.views < 2 ^ 31) (hb : b.views < 2 ^ 31) :
    compareMemes (record x a).row (record y b).row =
      .ok (decide ((digitsVal (entry (record x a).row 4) : ℤ) < digitsVal (entry (record y b).row 4))) := by
  have h1 : stoi (entry (record x a).row 4) = .ok (a.views : ℤ) := stoi_dec ha
  have h2 : stoi (entry (record y b).row 4) = .ok (b.views : ℤ) := stoi_dec hb
  have h3 : digitsVal (entry (record x a).row 4) = a.views := digitsVal_dec _
  have h4 : digitsVal (entry (record y b).row 4) = b.views := digitsVal_dec _
  unfold compareMemes
  rw [h1, h2, h3, h4]
  rfl

/-- The list of rows that valid memes have is answered. -/
theorem answerList_ok {found : List Record} (h : ∀ m ∈ found, ∃ x a, m = record x a ∧ a.views < 2 ^ 31) :
    ∃ body, answerList (found.map Record.row) = .ret (respond 200 (getMimeType ".json") body) ∧
      WireFormat body found := by
  have hsort : stableSort compareMemes (found.map Record.row) = .ok _ :=
    stableSort_ok (fun row => digitsVal (entry row 4)) (by
      intro _ hr _ hr'
      obtain ⟨m, hm, rfl⟩ := List.mem_map.1 hr
      obtain ⟨m', hm', rfl⟩ := List.mem_map.1 hr'
      obtain ⟨x, a, rfl, ha⟩ := h m hm
      obtain ⟨y, b, rfl, hb⟩ := h m' hm'
      exact compareMemes_record x y ha hb)
  have hmap := List.map_insertionSort (r := fun m m' : Record => m.views ≤ m'.views)
    (s := fun r r' => (digitsVal (entry r 4) : ℤ) ≤ digitsVal (entry r' 4)) Record.row found
    (fun a _ b _ => Iff.rfl)
  rw [← hmap] at hsort
  generalize hl : found.insertionSort (fun m m' : Record => m.views ≤ m'.views) = sorted at hsort hmap
  refine ⟨listOutput (sorted.map Record.row), ?_, sorted.reverse, ?_, ?_, ?_⟩
  · unfold answerList
    rw [hsort]
    rfl
  · refine decodeList_listOutput fun m hm => ?_
    have hm := (List.mem_insertionSort (fun m m' : Record => m.views ≤ m'.views)).1 (hl ▸ hm)
    obtain ⟨x, a, rfl, -⟩ := h m hm
    exact wire_isField x a
  · rw [← hl]
    exact (List.reverse_perm _).trans (List.perm_insertionSort _ _)
  · rw [List.pairwise_reverse, ← hl]
    exact List.pairwise_insertionSort _ _

end GittyUp.Meme
