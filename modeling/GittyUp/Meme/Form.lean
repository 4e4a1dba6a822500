import GittyUp.Lib.Regex
import GittyUp.UriLib
import Mathlib.Data.List.Induction
/-!
# Submitted forms

`body_check` of `src/meme_handler.cc`. It decodes the whole body and then looks
for pairs of a word, '=' and a run of caption characters, wherever they are in
the text. `Reads` says which pairs these are, without the matcher.
-/
open Lib

namespace GittyUp.Meme

/-- `[\w\.\,\?! ]` -/
def isCaption (c : Byte) : Bool := isWord c || c = '.' || c = ',' || c = '?' || c = '!' || c = ' '

def equals : Byte := '='
def isAmpersand (c : Byte) : Bool := c = '&'

/-- `(\w+)=([\w\.\,\?! ]+)&*` -/
def pairRe : Re := .group 1 (.plus isWord) ++ .lit equals [] ++ .group 2 (.plus isCaption) ++ .many isAmpersand

/-- `\w+.jpg` -/
def templateRe : Re := .plus isWord ++ .one notEol ++ .lit 'j' "pg"

/-- `[\w\.\,\?! ]+` -/
def captionRe : Re := .plus isCaption

/-- The local variables that the loop over the pairs fills. -/
structure Fields where
  memeTemplate : Str
  topCaption : Str
  bottomCaption : Str

/-- One turn of the loop. -/
def Fields.set (f : Fields) (m : Captures) : Fields :=
  let key := Re.capture m 1
  if key = str "memeSelect" then { f with memeTemplate := Re.capture m 2 }
  else if key = str "topCaption" then { f with topCaption := Re.capture m 2 }
  else if key = str "bottomCaption" then { f with bottomCaption := Re.capture m 2 }
  else f

/-- `body_check`: the parameters it pushes if it returns true. -/
def bodyCheck (body : Str) : Except StdException (Option (List Str)) := do
  let body ← uriDecode body
  let f := (pairRe.findAll body).foldl Fields.set ⟨[], [], []⟩
  if (templateRe.search f.memeTemplate).isNone then return none
  else if (captionRe.search f.topCaption).isNone then return none
  else if (captionRe.search f.bottomCaption).isNone then return none
  else return some [f.memeTemplate, f.topCaption, f.bottomCaption]

/-! ## The pairs of a text -/

/-- The pairs of a text: a maximal run of word characters, '=' and a maximal run
of caption characters, and after it the next pair. -/
inductive Reads : Str → List (Str × Str) → Prop
  | done : Reads [] []
  | skip {c s ps} : isWord c = false → Reads s ps → Reads (c :: s) ps
  | word {w s ps} : w ≠ [] → (∀ c ∈ w, isWord c) → StopsAt isWord s →
      (∀ c s', s = equals :: c :: s' → isCaption c = false) → Reads s ps → Reads (w ++ s) ps
  | pair {w v s ps} : w ≠ [] → (∀ c ∈ w, isWord c) → v ≠ [] → (∀ c ∈ v, isCaption c) → StopsAt isCaption s →
      Reads s ps → Reads (w ++ equals :: (v ++ s)) ((w, v) :: ps)

/-- Every text has its pairs. -/
theorem reads_total (s : Str) : ∃ ps, Reads s ps := by
  match s with
  | [] => exact ⟨[], .done⟩
  | c :: s =>
    cases hc : isWord c with
    | false =>
      obtain ⟨ps, h⟩ := reads_total s
      exact ⟨ps, .skip hc h⟩
    | true =>
      obtain ⟨e, hw, ht⟩ := span_run isWord (c :: s)
      have hne : (c :: s).takeWhile isWord ≠ [] := by simp [hc]
      generalize (c :: s).takeWhile isWord = w at e hw hne
      generalize (c :: s).dropWhile isWord = t at e ht
      have hlen : t.length < (c :: s).length := by
        rw [e, List.length_append]
        have := List.length_pos_of_ne_nil hne
        omega
      by_cases hp : ∃ d r, t = equals :: d :: r ∧ isCaption d
      · obtain ⟨d, r, rfl, hd⟩ := hp
        obtain ⟨e', hv, hr⟩ := span_run isCaption (d :: r)
        have hne' : (d :: r).takeWhile isCaption ≠ [] := by simp [hd]
        generalize (d :: r).takeWhile isCaption = v at e' hv hne'
        generalize (d :: r).dropWhile isCaption = u at e' hr
        have hlen' : u.length < (c :: s).length := by
          have : u.length ≤ (d :: r).length := by rw [e', List.length_append]; omega
          simp only [List.length_cons] at hlen this ⊢
          omega
        obtain ⟨ps, h⟩ := reads_total u
        rw [e, e']
        exact ⟨_, .pair hne hw hne' hv hr h⟩
      · obtain ⟨ps, h⟩ := reads_total t
        rw [e]
        refine ⟨ps, .word hne hw ht (fun d r hd => ?_) h⟩
        cases hcap : isCaption d with
        | false => rfl
        | true => exact absurd ⟨d, r, hd, hcap⟩ hp
termination_by s.length
decreasing_by
  · exact Nat.lt_succ_self _
  · exact hlen'
  · exact hlen

/-! ## The matcher finds them -/

/-- The captures of a pair. -/
def captures (kv : Str × Str) : Captures := [(2, kv.2), (1, kv.1)]

theorem isWord_ne_equals {c : Byte} (h : isWord c) : c ≠ equals := by
  rintro rfl
  exact absurd h (by decide)

/-- A match behind the first byte of a word takes the whole word, and the whole run behind the '='. -/
theorem pairRe_matchAt (n : Nat) {c : Byte} (s : Str) (hc : isWord c) :
    pairRe.matchAt n (c :: s) =
      match (c :: s).dropWhile isWord with
      | [] => none
      | e :: r =>
        if e = equals ∧ r.takeWhile isCaption ≠ [] then
          some ((r.dropWhile isCaption).dropWhile isAmpersand,
            captures ((c :: s).takeWhile isWord, r.takeWhile isCaption))
        else none := by
  have hd : (c :: s).dropWhile isWord = s.dropWhile isWord := List.dropWhile_cons_of_pos hc
  have htake := take_sub_dropWhile isWord (c :: s)
  unfold Re.matchAt pairRe
  simp only [HAppend.hAppend, Append.append, Re.run, Re.plus, Re.lit, if_pos hc]
  rw [Re.runMany_stop (fun c s hc => by simp [isWord_ne_equals hc])]
  rw [hd] at htake ⊢
  cases ht : s.dropWhile isWord with
  | nil => rfl
  | cons e r =>
    rw [ht] at htake
    by_cases he : e = equals
    · subst he
      cases r with
      | nil => rfl
      | cons d r =>
        by_cases hcap : isCaption d
        · have hv := take_sub_dropWhile isCaption (d :: r)
          rw [List.dropWhile_cons_of_pos hcap] at hv
          simp only [beq_self_eq_true, if_true, if_pos hcap]
          rw [Re.runMany_greedy, Re.runMany_greedy rfl, if_pos (by simp [hcap]), hv, htake,
            List.dropWhile_cons_of_pos hcap]
          · rfl
          · rw [Re.runMany_greedy rfl]; rfl
        · simp [hcap]
    · simp [he]

theorem pairRe_matchAt_skip (n : Nat) {c : Byte} (s : Str) (hc : isWord c = false) : pairRe.matchAt n (c :: s) = none := by
  unfold Re.matchAt pairRe
  simp only [HAppend.hAppend, Append.append, Re.run, Re.plus, Re.lit, hc, Bool.false_eq_true, if_false]

theorem searchFrom_skip (n : Nat) {c : Byte} (s : Str) (hc : isWord c = false) :
    pairRe.searchFrom n (c :: s) = pairRe.searchFrom n s := by
  rw [Re.searchFrom, pairRe_matchAt_skip n s hc, Option.none_or]

/-- The search leaves out a word without a value behind it. -/
theorem searchFrom_word (n : Nat) {w s : Str} (hw : ∀ c ∈ w, isWord c) (hs : StopsAt isWord s)
    (hn : ∀ c s', s = equals :: c :: s' → isCaption c = false) :
    pairRe.searchFrom n (w ++ s) = pairRe.searchFrom n s := by
  induction w with
  | nil => rfl
  | cons c w ih =>
    have hno : pairRe.matchAt n (c :: (w ++ s)) = none := by
      rw [pairRe_matchAt n _ (hw c (by simp)), ← List.cons_append, dropWhile_run hw hs]
      cases s with
      | nil => rfl
      | cons e r =>
        refine if_neg ?_
        rintro ⟨rfl, hr⟩
        cases r with
        | nil => exact hr rfl
        | cons d r => exact hr (by rw [List.takeWhile_cons_of_neg (by simp [hn d r rfl])])
    rw [List.cons_append, Re.searchFrom, hno, Option.none_or, ih fun c hc => hw c (by simp [hc])]

theorem searchFrom_pair (n : Nat) {w v s : Str} (hw0 : w ≠ []) (hw : ∀ c ∈ w, isWord c) (hv0 : v ≠ [])
    (hv : ∀ c ∈ v, isCaption c) (hs : StopsAt isCaption s) :
    pairRe.searchFrom n (w ++ equals :: (v ++ s)) = some (s.dropWhile isAmpersand, captures (w, v)) := by
  have he : StopsAt isWord (equals :: (v ++ s)) := by
    rintro _ ⟨rfl⟩
    decide
  obtain ⟨c, w, rfl⟩ := List.exists_cons_of_ne_nil hw0
  have := pairRe_matchAt n (w ++ equals :: (v ++ s)) (hw c (by simp))
  rw [← List.cons_append, dropWhile_run hw he, takeWhile_run hw he] at this
  simp only [takeWhile_run hv hs, dropWhile_run hv hs, hv0, ne_eq, not_false_eq_true, and_self, if_true] at this
  exact Re.searchFrom_here this

/-- The matcher's iteration yields the pairs of the text. -/
theorem findAllFrom_reads (n : Nat) {s : Str} {ps : List (Str × Str)} (h : Reads s ps) :
    ∀ fuel, s.length < fuel → pairRe.findAllFrom n fuel s = ps.map captures := by
  have skipped : ∀ fuel t, pairRe.findAllFrom n fuel (t.dropWhile isAmpersand) = pairRe.findAllFrom n fuel t := by
    intro fuel t
    induction t with
    | nil => rfl
    | cons c t ih =>
      by_cases hc : isAmpersand c
      · have hw : isWord c = false := by rw [of_decide_eq_true hc]; decide
        rw [List.dropWhile_cons_of_pos hc, ih, Re.findAllFrom_congr n fuel (searchFrom_skip n t hw)]
      · rw [List.dropWhile_cons_of_neg hc]
  induction h with
  | done =>
    intro fuel hf
    cases fuel with
    | zero => cases hf
    | succ fuel => rfl
  | skip hc _ ih =>
    intro fuel hf
    rw [Re.findAllFrom_congr n fuel (searchFrom_skip n _ hc), ih fuel (by simp at hf; omega)]
  | word _ hw hs hn _ ih =>
    intro fuel hf
    rw [Re.findAllFrom_congr n fuel (searchFrom_word n hw hs hn), ih fuel (by simp at hf; omega)]
  | pair hw0 hw hv0 hv hs _ ih =>
    intro fuel hf
    cases fuel with
    | zero => cases hf
    | succ fuel =>
      rw [Re.findAllFrom, searchFrom_pair n hw0 hw hv0 hv hs]
      simp only [List.map_cons]
      rw [skipped, ih fuel (by simp at hf; omega)]

theorem findAll_reads {s : Str} {ps : List (Str × Str)} (h : Reads s ps) : pairRe.findAll s = ps.map captures :=
  findAllFrom_reads s.length h _ (Nat.lt_succ_self _)

/-! ## What is accepted -/

/-- The last value of a key, empty if it has none. -/
def value (ps : List (Str × Str)) (key : Str) : Str := (ps.reverse.lookup key).getD []

theorem set_captures (f : Fields) (kv : Str × Str) : f.set (captures kv) =
    if kv.1 = str "memeSelect" then { f with memeTemplate := kv.2 }
    else if kv.1 = str "topCaption" then { f with topCaption := kv.2 }
    else if kv.1 = str "bottomCaption" then { f with bottomCaption := kv.2 }
    else f := rfl

/-- The loop leaves the last value of each key in its variable. -/
theorem foldl_set (ps : List (Str × Str)) :
    (ps.map captures).foldl Fields.set ⟨[], [], []⟩ =
      ⟨value ps "memeSelect", value ps "topCaption", value ps "bottomCaption"⟩ := by
  induction ps using List.reverseRecOn with
  | nil => rfl
  | append_singleton ps kv ih =>
    have hv : ∀ key : Str, value (ps ++ [kv]) key = if kv.1 = key then kv.2 else value ps key := by
      intro key
      unfold value
      rw [List.reverse_append, List.reverse_singleton, List.singleton_append, List.lookup_cons]
      by_cases hk : kv.1 = key
      · simp [hk]
      · have : (key == kv.1) = false := by simpa using Ne.symm hk
        simp [hk, this]
    have h12 : str "memeSelect" ≠ str "topCaption" := by decide
    have h13 : str "memeSelect" ≠ str "bottomCaption" := by decide
    have h23 : str "topCaption" ≠ str "bottomCaption" := by decide
    rw [List.map_append, List.foldl_append, ih]
    simp only [List.map_cons, List.map_nil, List.foldl_cons, List.foldl_nil, set_captures, hv]
    by_cases h1 : kv.1 = str "memeSelect"
    · simp [h1, h12, h13]
    · by_cases h2 : kv.1 = str "topCaption"
      · simp [h2, h12.symm, h23]
      · by_cases h3 : kv.1 = str "bottomCaption"
        · simp [h3, h13.symm, h23.symm]
        · simp [h1, h2, h3]

/-- A word character, any character and `jpg`, somewhere in the text. -/
def NamesJpg (v : Str) : Prop := ∃ a x y z, v = a ++ x :: y :: (str "jpg" ++ z) ∧ isWord x ∧ notEol y

theorem templateRe_iff (v : Str) : (templateRe.search v).isSome ↔ NamesJpg v := by
  rw [Re.search_isSome_iff]
  constructor
  · rintro ⟨a, b, rfl, s', _, t, _, ⟨u, _, h1, ⟨y, hy, rfl, rfl⟩⟩, h2⟩
    obtain ⟨w, hne, hw, rfl, rfl⟩ := Re.matches_plus.1 h1
    obtain ⟨rfl, rfl⟩ := Re.matches_lit.1 h2
    -- the last character of the word is the one before the dot
    refine ⟨a ++ w.dropLast, w.getLast hne, y, s', ?_, hw _ (List.getLast_mem hne), hy⟩
    conv_lhs => rw [← List.dropLast_append_getLast hne]
    simp [str]
  · rintro ⟨a, x, y, z, rfl, hx, hy⟩
    refine ⟨a, _, rfl, z, [], _, _, ⟨y :: (str "jpg" ++ z), [], ?_, ⟨y, hy, rfl, rfl⟩⟩, ?_⟩
    · exact Re.matches_plus.2 ⟨[x], by simp, by simpa using hx, rfl, rfl⟩
    · exact Re.matches_lit.2 ⟨rfl, rfl⟩

theorem captionRe_iff (v : Str) : (captionRe.search v).isSome ↔ ∃ c ∈ v, isCaption c := by
  rw [Re.search_isSome_iff]
  constructor
  · rintro ⟨a, b, rfl, s', _, h⟩
    obtain ⟨w, hne, hw, rfl, -⟩ := Re.matches_plus.1 h
    obtain ⟨c, w, rfl⟩ := List.exists_cons_of_ne_nil hne
    exact ⟨c, by simp, hw c (by simp)⟩
  · rintro ⟨c, hm, hc⟩
    obtain ⟨a, b, rfl⟩ := List.append_of_mem hm
    exact ⟨a, c :: b, rfl, b, [], Re.matches_plus.2 ⟨[c], by simp, by simpa using hc, rfl, rfl⟩⟩

theorem reads_values {s : Str} {ps : List (Str × Str)} (h : Reads s ps) :
    ∀ kv ∈ ps, kv.2 ≠ [] ∧ ∀ c ∈ kv.2, isCaption c := by
  induction h with
  | done => simp
  | skip _ _ ih | word _ _ _ _ _ ih => exact ih
  | pair _ _ hv0 hv _ _ ih =>
    rintro kv hkv
    rcases List.mem_cons.1 hkv with rfl | hkv
    · exact ⟨hv0, hv⟩
    · exact ih kv hkv

theorem value_caption {s : Str} {ps : List (Str × Str)} (h : Reads s ps) (key : Str) :
    ∀ c ∈ value ps key, isCaption c := by
  unfold value
  cases hl : ps.reverse.lookup key with
  | none => simp
  | some v =>
    obtain ⟨l₁, l₂, he, -⟩ := List.lookup_eq_some_iff.1 hl
    exact (reads_values h (key, v) (by rw [← List.mem_reverse, he]; simp)).2

/-- The pairs give a value to each of the three fields, and name a `jpg`. -/
def Fills (ps : List (Str × Str)) : Prop :=
  NamesJpg (value ps "memeSelect") ∧ value ps "topCaption" ≠ [] ∧ value ps "bottomCaption" ≠ []

/-- `body_check`, by the pairs of the decoded body. -/
theorem bodyCheck_reads {body text : Str} {ps : List (Str × Str)} (hd : uriDecode body = .ok text)
    (h : Reads text ps) :
    (Fills ps → bodyCheck body =
      .ok (some [value ps "memeSelect", value ps "topCaption", value ps "bottomCaption"])) ∧
    (¬ Fills ps → bodyCheck body = .ok none) := by
  have hcap : ∀ key, (captionRe.search (value ps key)).isSome ↔ value ps key ≠ [] := by
    intro key
    rw [captionRe_iff]
    constructor
    · rintro ⟨c, hc, -⟩
      exact List.ne_nil_of_mem hc
    · intro hne
      obtain ⟨c, s, hs⟩ := List.exists_cons_of_ne_nil hne
      exact ⟨c, by simp [hs], value_caption h key c (by simp [hs])⟩
  have hsome : ∀ (r : Re) (v : Str), (r.search v).isNone = true ↔ ¬ (r.search v).isSome := fun r v => by
    cases r.search v <;> simp
  unfold bodyCheck Fills
  rw [hd]
  simp only [bind, Except.bind, findAll_reads h, foldl_set, hsome]
  rw [← templateRe_iff, ← hcap, ← hcap]
  constructor
  · rintro ⟨h1, h2, h3⟩
    rw [if_neg (not_not.2 h1), if_neg (not_not.2 h2), if_neg (not_not.2 h3)]
    rfl
  · intro hn
    by_cases h1 : (templateRe.search (value ps "memeSelect")).isSome
    · rw [if_neg (not_not.2 h1)]
      by_cases h2 : (captionRe.search (value ps "topCaption")).isSome
      · rw [if_neg (not_not.2 h2), if_pos fun h3 => hn ⟨h1, h2, h3⟩]
        rfl
      · rw [if_pos h2]
        rfl
    · rw [if_pos h1]
      rfl

/-- The shape of a stored field. -/
def Caption (v : Str) : Prop := v ≠ [] ∧ ∀ c ∈ v, isCaption c

/-- Only the decoding of the body can throw, and what is accepted are three fields of the right shape. -/
theorem bodyCheck_spec (body : Str) :
    bodyCheck body = .error decodeFailure ∨ bodyCheck body = .ok none ∨
      ∃ t p b, bodyCheck body = .ok (some [t, p, b]) ∧ Caption t ∧ Caption p ∧ Caption b := by
  cases hd : uriDecode body with
  | error e =>
    left
    unfold bodyCheck
    rw [hd, uriDecode_error hd]
    rfl
  | ok text =>
    right
    obtain ⟨ps, hps⟩ := reads_total text
    obtain ⟨hfills, hnot⟩ := bodyCheck_reads hd hps
    by_cases h : Fills ps
    · have ht : value ps "memeSelect" ≠ [] := by
        obtain ⟨a, x, y, z, hv, -⟩ := h.1
        simp [hv]
      exact .inr ⟨_, _, _, hfills h, ⟨ht, value_caption hps _⟩, ⟨h.2.1, value_caption hps _⟩, h.2.2, value_caption hps _⟩
    · exact .inl (hnot h)

/-! ## The form as a browser sends it -/

def isUnreserved (c : Byte) : Bool := isWord c || c ∈ str "-.~"

/-- A byte of a field and what a form encoder may send for it: unreserved bytes
stay (browsers also leave some punctuation), a space may become a plus. -/
inductive EncodesByte : Byte → Str → Prop
  | kept {c : Byte} : isUnreserved c = true ∨ c ∈ str "!*'()" → EncodesByte c [c]
  | plus : EncodesByte (' ' : Char) [('+' : Char)]
  | escaped {c h l : Byte} : isUnreserved c = false → isHexDigit h → isHexDigit l →
      16 * hexVal h + hexVal l = c.toNat → EncodesByte c [('%' : Char), h, l]

inductive Encodes : Str → Str → Prop
  | nil : Encodes [] []
  | cons {c : Byte} {e v t : Str} : EncodesByte c e → Encodes v t → Encodes (c :: v) (e ++ t)

/-- `memeSelect=t&topCaption=p&bottomCaption=b` -/
def formText (t p b : Str) : Str :=
  str "memeSelect" ++ equals :: (t ++ (('&' : Char) : Byte) :: (str "topCaption" ++ equals ::
    (p ++ (('&' : Char) : Byte) :: (str "bottomCaption" ++ equals :: b))))

/-- A body that the form with these three fields may have. -/
def FormBody (t p b body : Str) : Prop :=
  ∃ et ep eb, Encodes t et ∧ Encodes p ep ∧ Encodes b eb ∧ body = formText et ep eb

theorem encodesByte_exists (c : Byte) : ∃ e, EncodesByte c e := by
  cases hc : isUnreserved c with
  | true => exact ⟨_, .kept (.inl hc)⟩
  | false =>
    have hlt : c.toNat < 256 := UInt8.toNat_lt c
    obtain ⟨hh, h1⟩ := hexDigit_spec (c.toNat / 16) (by omega)
    obtain ⟨hl, h2⟩ := hexDigit_spec (c.toNat % 16) (by omega)
    exact ⟨_, .escaped hc hh hl (by omega)⟩

theorem encodes_exists (v : Str) : ∃ e, Encodes v e := by
  induction v with
  | nil => exact ⟨[], .nil⟩
  | cons c v ih =>
    obtain ⟨e, he⟩ := encodesByte_exists c
    obtain ⟨t, ht⟩ := ih
    exact ⟨e ++ t, .cons he ht⟩

theorem decode_byte {c : Byte} {e s t : Str} (h : EncodesByte c e) (hs : uriDecodeLoop 0 s = .ok t) :
    uriDecodeLoop 0 (e ++ s) = .ok (c :: t) := by
  cases h with
  | kept hc =>
    refine uriDecodeLoop_plain ?_ ?_ hs
    · rintro rfl
      exact absurd hc (by decide)
    · rintro rfl
      exact absurd hc (by decide)
  | plus => exact uriDecodeLoop_plus hs
  | escaped _ hh hl hc => exact uriDecodeLoop_escape hh hl hc hs

theorem decode_field {v e s t : Str} (h : Encodes v e) (hs : uriDecodeLoop 0 s = .ok t) :
    uriDecodeLoop 0 (e ++ s) = .ok (v ++ t) := by
  induction h with
  | nil => exact hs
  | cons hc _ ih =>
    rw [List.append_assoc]
    exact decode_byte hc ih

theorem decode_plain {w s t : Str} (hw : ∀ c ∈ w, c ≠ '%' ∧ c ≠ '+') (hs : uriDecodeLoop 0 s = .ok t) :
    uriDecodeLoop 0 (w ++ s) = .ok (w ++ t) := by
  induction w with
  | nil => exact hs
  | cons c w ih => exact uriDecodeLoop_plain (hw c (by simp)).1 (hw c (by simp)).2 (ih fun c hc => hw c (by simp [hc]))

theorem decode_form {t p b body : Str} (h : FormBody t p b body) : uriDecode body = .ok (formText t p b) := by
  obtain ⟨et, ep, eb, ht, hp, hb, rfl⟩ := h
  have hb := decode_field hb (s := []) (t := []) rfl
  rw [List.append_nil, List.append_nil] at hb
  unfold uriDecode formText
  apply decode_plain (by decide)
  apply uriDecodeLoop_plain (by decide) (by decide)
  apply decode_field ht
  apply uriDecodeLoop_plain (by decide) (by decide)
  apply decode_plain (by decide)
  apply uriDecodeLoop_plain (by decide) (by decide)
  apply decode_field hp
  apply uriDecodeLoop_plain (by decide) (by decide)
  apply decode_plain (by decide)
  exact uriDecodeLoop_plain (by decide) (by decide) hb

/-- The shape of a template file name and of two captions. -/
def ValidFields (t p b : Str) : Prop :=
  (∃ w, w ≠ [] ∧ (∀ c ∈ w, isWord c) ∧ t = w ++ str ".jpg") ∧ (p ≠ [] ∧ ∀ c ∈ p, isCaption c) ∧
    (b ≠ [] ∧ ∀ c ∈ b, isCaption c)

/-- The answer for the fields `t`, `p` and `b`: they are refused, or stored as
they are, and stored if and only if they are valid. -/
def Exact (t p b : Str) (answer : Except StdException (Option (List Str))) : Prop :=
  (answer = .ok none ∨ answer = .ok (some [t, p, b])) ∧ ((∃ params, answer = .ok (some params)) ↔ ValidFields t p b)

/-- The pairs of a valid form are its fields. -/
theorem reads_valid {t p b : Str} (h : ValidFields t p b) : Reads (formText t p b)
    [(str "memeSelect", t), (str "topCaption", p), (str "bottomCaption", b)] := by
  obtain ⟨⟨w, hw0, hw, rfl⟩, ⟨hp0, hp⟩, hb0, hb⟩ := h
  have hamp : ∀ s, StopsAt isCaption ((('&' : Char) : Byte) :: s) := by
    rintro s _ ⟨rfl⟩
    decide
  have ht : ∀ c ∈ w ++ str ".jpg", isCaption c := by
    intro c hc
    rcases List.mem_append.1 hc with hc | hc
    · simp [isCaption, hw c hc]
    · have : ∀ c ∈ str ".jpg", isCaption c := by decide
      exact this c hc
  have hlast : Reads (str "bottomCaption" ++ equals :: b) [(str "bottomCaption", b)] := by
    have := Reads.pair (w := str "bottomCaption") (by decide) (by decide) hb0 hb (by rintro c ⟨⟩) .done
    rwa [List.append_nil] at this
  refine .pair (by decide) (by decide) (by simp [hw0]) ht (hamp _) (.skip (by decide) ?_)
  exact .pair (by decide) (by decide) hp0 hp (hamp _) (.skip (by decide) hlast)

theorem bodyCheck_valid {t p b body : Str} (h : ValidFields t p b) (hb : FormBody t p b body) :
    bodyCheck body = .ok (some [t, p, b]) := by
  refine (bodyCheck_reads (decode_form hb) (reads_valid h)).1 ⟨?_, h.2.1.1, h.2.2.1⟩
  obtain ⟨w, hw0, hw, rfl⟩ := h.1
  refine ⟨w.dropLast, w.getLast hw0, '.', [], ?_, hw _ (List.getLast_mem hw0), by decide⟩
  show w ++ str ".jpg" = _
  conv_lhs => rw [← List.dropLast_append_getLast hw0]
  simp [str]

/-- Submitted fields are stored exactly or refused if and only if they are
valid, or the pairs of the form leave a field without a value. -/
theorem bodyCheck_exact_iff (t p b : Str) :
    (∀ body, FormBody t p b body → Exact t p b (bodyCheck body)) ↔
      ValidFields t p b ∨ ∀ ps, Reads (formText t p b) ps → ¬ Fills ps := by
  constructor
  · intro h
    by_contra hn
    rw [not_or] at hn
    obtain ⟨hv, hn⟩ := hn
    push Not at hn
    obtain ⟨ps, hps, hfill⟩ := hn
    obtain ⟨et, ht⟩ := encodes_exists t
    obtain ⟨ep, hp⟩ := encodes_exists p
    obtain ⟨eb, hb⟩ := encodes_exists b
    have hbody : FormBody t p b (formText et ep eb) := ⟨et, ep, eb, ht, hp, hb, rfl⟩
    exact hv ((h _ hbody).2.1 ⟨_, (bodyCheck_reads (decode_form hbody) hps).1 hfill⟩)
  · intro h body hbody
    by_cases hv : ValidFields t p b
    · have he := bodyCheck_valid hv hbody
      exact ⟨.inr he, fun _ => hv, fun _ => ⟨_, he⟩⟩
    · obtain ⟨ps, hps⟩ := reads_total (formText t p b)
      have he := (bodyCheck_reads (decode_form hbody) hps).2 (h.resolve_left hv ps hps)
      refine ⟨.inl he, ?_, fun h => absurd h hv⟩
      rintro ⟨params, hp⟩
      cases he.symm.trans hp

theorem encodes_kept {v : Str} (h : ∀ c ∈ v, isUnreserved c = true ∨ c ∈ str "!*'()") : Encodes v v := by
  induction v with
  | nil => exact .nil
  | cons c v ih => exact .cons (.kept (h c (by simp))) (ih fun c hc => h c (by simp [hc]))

/-- An apostrophe cuts the caption off: `it's` is stored as `it`. -/
theorem bodyCheck_truncates :
    FormBody "a.jpg" "it's" "c" "memeSelect=a.jpg&topCaption=it's&bottomCaption=c" ∧
    bodyCheck "memeSelect=a.jpg&topCaption=it's&bottomCaption=c" = .ok (some ["a.jpg", "it", "c"]) ∧
    ¬ ValidFields "a.jpg" "it's" "c" := by
  refine ⟨⟨_, _, _, encodes_kept (by decide), encodes_kept (by decide), encodes_kept (by decide), rfl⟩, ?_, ?_⟩
  · decide +kernel
  · rintro ⟨-, ⟨-, h⟩, -⟩
    exact absurd (h 39 (by decide)) (by decide)

end GittyUp.Meme
