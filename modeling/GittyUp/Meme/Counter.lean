import GittyUp.Meme.Search
import GittyUp.Meme.Views
import GittyUp.Meme.Wire
import Mathlib.Data.Set.List
/-!
# The counter as a number

The counter is stored as text of any length, but `get_meme_by_id` and
`compareMemes` read it as an `int`. `counts_iff` says how many views of a meme
are counted and listed in order.
-/
open Lib Lib.Sql GittyUp.Http GittyUp.SqlLib

namespace GittyUp.Meme

namespace Memes

def viewsOf (M : Memes) (x : MemeId) : Nat := ((M x).map Entry.views).getD 0

/-- After `k` more views of a meme. -/
def viewed (M : Memes) (x : MemeId) (k : Nat) : Memes := M.modify x fun a => { a with views := a.views + k }

end Memes

/-- The counter of a meme, as `get_meme_by_id` reads it. -/
def readViews (db : Db) (x : MemeId) : Option Int :=
  ((storedRows db).find? fun row => entry row 0 = x.text).bind fun row => (stoi (entry row 4)).toOption

/-- The pages read a list of the memes, each once, and those with the most views first. -/
def Ranks (M : Memes) (out : Except StdException Response) : Prop :=
  ∃ body lines, ∃ ys : List MemeId, out = .ok (listAnswer body) ∧ decodeList body = some lines ∧
    lines.map (·.getD 0 []) = ys.map MemeId.text ∧ ys.Nodup ∧ (∀ y, y ∈ ys ↔ (M y).isSome) ∧
    ys.Pairwise fun y z => M.viewsOf z ≤ M.viewsOf y

/-- `k` views of a meme, one after the other. -/
def ViewRun (engine : Db → Call → Reply → Db → Prop) (x : MemeId) (db₀ : Db) (k : Nat) (db : Db) : Prop :=
  ∃ (inputs : List Input) (outs : List (Except StdException Response)), inputs.length = k ∧
    (∀ i ∈ inputs, isGetFor x i.1 = true) ∧ RunsEach engine (fun i : Input => serve i.2.text i.1) db₀ inputs outs db

/-- All through `n` views of `x`, from a table whose counters are the numbers of `M`. -/
structure Counts (engine : Db → Call → Reply → Db → Prop) (ms : List Record) (M : Memes) (x : MemeId) (n : Nat) : Prop where
  /-- The text reads as the number of views. -/
  reads : ∀ {k db}, k ≤ n → ViewRun engine x (memeDb ms) k db → readViews db x = some (M.viewsOf x + k : ℕ)
  /-- What is read has a successor that is an `int`, and that is what is read after the next view. -/
  adds : ∀ {k db} {i : Input} {out db'}, k < n → ViewRun engine x (memeDb ms) k db → isGetFor x i.1 = true →
    Runs engine db (serve i.2.text i.1) out db' →
    ∃ v, readViews db x = some v ∧ v + 1 < 2 ^ 31 ∧ readViews db' x = some (v + 1)
  /-- The memes are listed by their numbers of views. -/
  ranks : ∀ {k db out db'}, k ≤ n → ViewRun engine x (memeDb ms) k db → Runs engine db memeList out db' →
    Ranks (M.viewed x k) out

/-! ## More views -/

namespace Memes
variable {M : Memes} {x y : MemeId} {a b : Entry}

theorem viewed_zero (M : Memes) (x : MemeId) : M.viewed x 0 = M := by
  unfold viewed modify
  rw [show (fun a : Entry => { a with views := a.views + 0 }) = id from rfl, Option.map_id_fun, id,
    Function.update_eq_self]

theorem viewed_succ (M : Memes) (x : MemeId) (k : Nat) : (M.viewed x k).viewed x 1 = M.viewed x (k + 1) := by
  unfold viewed modify
  rw [Function.update_self, Function.update_idem, Option.map_map]
  rfl

theorem viewed_self (h : M x = some a) (k : Nat) : M.viewed x k x = some { a with views := a.views + k } := by
  unfold viewed modify
  rw [Function.update_self, h]
  rfl

theorem viewsOf_some (h : M x = some a) : M.viewsOf x = a.views := by
  rw [viewsOf, h]
  rfl

/-- The numbers stay small for as long as that of `x` does. -/
theorem viewed_lt {N k : Nat} (hsmall : ∀ y b, M y = some b → b.views < N) (hx : M x = some a) (hk : a.views + k < N) :
    ∀ y b, M.viewed x k y = some b → b.views < N := by
  intro y b hb
  by_cases hy : y = x
  · subst hy
    rw [viewed_self hx] at hb
    cases hb
    exact hk
  · refine hsmall y b ?_
    unfold viewed modify at hb
    rwa [Function.update_of_ne hy] at hb

end Memes

/-! ## Reading the counter -/

theorem readViews_lt {db : Db} {x : MemeId} {v : Int} (h : readViews db x = some v) : v < 2 ^ 31 := by
  obtain ⟨row, -, hv⟩ := Option.bind_eq_some_iff.1 h
  cases hs : stoi (entry row 4) with
  | error e =>
    rw [hs] at hv
    cases hv
  | ok w =>
    rw [hs] at hv
    cases hv
    exact (stoi_range hs).2

/-- What is read is the text in the only row of the meme. -/
theorem readViews_unique {ms : List Record} {x : MemeId} {m : Record} (hm : m ∈ ms) (hid : m.id = x.text)
    (hone : ∀ m' ∈ ms, m'.id = x.text → m' = m) : readViews (memeDb ms) x = (stoi m.timesViewed).toOption := by
  have hfind : (storedRows (memeDb ms)).find? (fun row => entry row 0 = x.text) = some m.row := by
    rw [storedRows, Statement.lookup_memeDb]
    cases hf : (ms.map Record.row).find? fun row => entry row 0 = x.text with
    | none =>
      have hne := List.find?_eq_none.1 hf m.row (List.mem_map_of_mem hm)
      exact absurd (decide_eq_true hid) hne
    | some row =>
      have hrow := List.find?_some hf
      obtain ⟨m', hm', rfl⟩ := List.mem_map.1 (List.mem_of_find?_eq_some hf)
      cases hone m' hm' (of_decide_eq_true hrow)
      exact hf
  rw [readViews, hfind]
  rfl

section Views
variable {like : Str → Str → Bool} {engine : Db → Call → Reply → Db → Prop} {ms : List Record} {M : Memes} {db db' : Db}
  {x : MemeId} {a : Entry} {i : Input} {out : Except StdException Response} {n k : Nat}

theorem readViews_represents (hr : Represents ms M) (hx : M x = some a) :
    readViews (memeDb ms) x = (stoi (dec a.views)).toOption := by
  refine readViews_unique (hr.mem hx) rfl fun m' hm' he => ?_
  obtain ⟨y, b, hy, rfl⟩ := (hr.mem_iff m').1 hm'
  cases MemeId.text_injective he
  cases hx.symm.trans hy
  rfl

/-! ## One view -/

/-- A view below the limit adds one. -/
theorem runs_viewed_one (hd : Documented like engine) (hr : Represents ms M) (hi : isGetFor x i.1 = true)
    (hsmall : ∀ a, M x = some a → a.views < 2 ^ 31 - 1) (h : Runs engine (memeDb ms) (serve i.2.text i.1) out db') :
    ∃ ms', db' = memeDb ms' ∧ Represents ms' (M.viewed x 1) := by
  have h := runs_command hd i h
  rw [viewOf_eq_some.1 ((viewOf_iff i.1 x).2 hi)] at h
  obtain ⟨ms', hms', hr', -⟩ := runs_view hd hr i.2 x hsmall h
  exact ⟨ms', hms', hr'⟩

/-- A view stores the text of the sum, also where that is no successor. -/
theorem runs_viewed_text (hd : Documented like engine) (hr : Represents ms M) (hx : M x = some a) (ha : a.views < 2 ^ 31)
    (hi : isGetFor x i.1 = true) (h : Runs engine (memeDb ms) (serve i.2.text i.1) out db') :
    readViews db' x = (stoi (cStr (decInt (succInt a.views)))).toOption := by
  have h := runs_command hd i h
  rw [viewOf_eq_some.1 ((viewOf_iff i.1 x).2 hi)] at h
  obtain ⟨r, hf, h⟩ := runs_collect hd (.find x.text) rfl h (fun m => m.id = x.text)
    fun ha => by rwa [Statement.Acts, x.cStr_text] at ha
  rw [hr.find hf, hx, Option.map_some, Option.toList_some, List.map_singleton, cStr_row, viewRows_record x ha] at h
  obtain ⟨r', ms', hcount, h⟩ := runs_change hd (.count x.text (decInt (succInt a.views))) rfl h fun hc => hc.1
  obtain ⟨-, rfl⟩ := runs_ret.1 h
  obtain ⟨-, rfl⟩ := hcount
  rw [x.cStr_text]
  generalize decInt (succInt a.views) = text
  have hmem : { record x a with timesViewed := cStr text } ∈ ms.map fun m =>
      if m.id = x.text then { m with timesViewed := cStr text } else m :=
    List.mem_map.2 ⟨_, hr.mem hx, if_pos rfl⟩
  refine readViews_unique hmem rfl fun m' hm' he => ?_
  obtain ⟨m, hm, rfl⟩ := List.mem_map.1 hm'
  obtain ⟨y, b, hy, rfl⟩ := (hr.mem_iff m).1 hm
  have hyx : y = x := by
    refine MemeId.text_injective ?_
    rw [← he]
    split
    · rfl
    · rfl
  subst hyx
  cases hx.symm.trans hy
  exact if_pos rfl

/-- Views below the limit add up. -/
theorem ViewRun.represents (hd : Documented like engine) (hr : Represents ms M) (hx : M x = some a)
    (h : ViewRun engine x (memeDb ms) k db) (hk : a.views + k < 2 ^ 31) :
    ∃ ms', db = memeDb ms' ∧ Represents ms' (M.viewed x k) := by
  obtain ⟨inputs, outs, rfl, hget, hrun⟩ := h
  induction hrun with
  | nil => exact ⟨ms, rfl, by rwa [List.length_nil, Memes.viewed_zero]⟩
  | @snoc is outs db i out db' _ hi ih =>
    rw [List.length_append, List.length_singleton] at hk ⊢
    obtain ⟨ms', rfl, hr'⟩ := ih (by omega) fun j hj => hget j (List.mem_append_left _ hj)
    have hroom : ∀ b, M.viewed x is.length x = some b → b.views < 2 ^ 31 - 1 := by
      intro b hb
      rw [Memes.viewed_self hx] at hb
      cases hb
      show a.views + is.length < 2 ^ 31 - 1
      omega
    obtain ⟨ms'', rfl, hr''⟩ := runs_viewed_one hd hr' (hget i (by simp)) hroom hi
    rw [Memes.viewed_succ] at hr''
    exact ⟨ms'', rfl, hr''⟩

/-- The list of small numbers is in their order. -/
theorem runs_ranked (hd : Documented like engine) (hr : Represents ms M) (hsmall : ∀ x a, M x = some a → a.views < 2 ^ 31)
    (h : Runs engine (memeDb ms) memeList out db') : Ranks M out := by
  obtain ⟨r, hf, h⟩ := runs_collect hd .all rfl h _ id
  obtain ⟨-, body, found, hout, -, hperm, hwire⟩ := runs_answerList hr hsmall hf h
  rw [List.filter_true] at hperm
  obtain ⟨listed, hdecode, hlisted, hsorted⟩ := hwire.perm hperm
  -- each record of the list is that of a meme
  obtain ⟨es, rfl⟩ : listed ∈ Set.range (List.map fun e : { e : MemeId × Entry // M e.1 = some e.2 } =>
      record e.1.1 e.1.2) := by
    rw [Set.range_list_map]
    intro m hm
    obtain ⟨y, b, hy, rfl⟩ := (hr.mem_iff m).1 (hlisted.subset hm)
    exact ⟨⟨(y, b), hy⟩, rfl⟩
  have hids : (es.map fun e => e.1.1.text).Nodup := by
    have := (hlisted.map Record.id).nodup_iff.2 hr.nodup
    rwa [List.map_map] at this
  refine ⟨body, _, es.map fun e => e.1.1, hout, hdecode, ?_, ?_, fun y => ?_, ?_⟩
  · rw [List.map_map, List.map_map, List.map_map]
    rfl
  · refine List.Nodup.of_map MemeId.text ?_
    rwa [List.map_map]
  · rw [List.mem_map]
    constructor
    · rintro ⟨e, -, rfl⟩
      rw [e.2]
      rfl
    · intro hy
      obtain ⟨b, hb⟩ := Option.isSome_iff_exists.1 hy
      obtain ⟨e, he, hid⟩ := List.mem_map.1 (hlisted.symm.subset (hr.mem hb))
      exact ⟨e, he, MemeId.text_injective (congrArg Record.id hid)⟩
  · rw [List.pairwise_map] at hsorted ⊢
    refine hsorted.imp fun {e e'} hle => ?_
    rw [Memes.viewsOf_some e.2, Memes.viewsOf_some e'.2]
    simpa [Record.views, record] using hle

/-! ## All the views -/

theorem ViewRun.snoc {db₀ : Db} (h : ViewRun engine x db₀ k db) (hi : isGetFor x i.1 = true)
    (hrun : Runs engine db (serve i.2.text i.1) out db') : ViewRun engine x db₀ (k + 1) db' := by
  obtain ⟨inputs, outs, rfl, hget, h⟩ := h
  refine ⟨inputs ++ [i], outs ++ [out], List.length_append, fun j hj => ?_, h.snoc hrun⟩
  rcases List.mem_append.1 hj with hj | hj
  · exact hget j hj
  · rwa [List.mem_singleton.1 hj]

theorem counts_of_small (hd : Documented like engine) (hr : Represents ms M) (hx : M x = some a)
    (hn : a.views + n < 2 ^ 31) (hsmall : ∀ y b, M y = some b → b.views < 2 ^ 31) : Counts engine ms M x n := by
  have reads : ∀ {k db}, k ≤ n → ViewRun engine x (memeDb ms) k db → readViews db x = some (M.viewsOf x + k : ℕ) := by
    intro k db hk h
    obtain ⟨ms', rfl, hr'⟩ := h.represents hd hr hx (by omega)
    have hlt : a.views + k < 2 ^ 31 := by omega
    rw [readViews_represents hr' (Memes.viewed_self hx k), stoi_dec hlt, Memes.viewsOf_some hx]
    rfl
  refine ⟨reads, fun {k db i out db'} hk h hi hrun => ?_, fun {k db out db'} hk h hrun => ?_⟩
  · have hnext := reads hk (h.snoc hi hrun)
    refine ⟨_, reads hk.le h, ?_, by rw [hnext]; rfl⟩
    rw [Memes.viewsOf_some hx]
    omega
  · obtain ⟨ms', rfl, hr'⟩ := h.represents hd hr hx (by omega)
    exact runs_ranked hd hr' (Memes.viewed_lt hsmall hx (by omega)) hrun

end Views

/-- A `GET` for the page of a meme. -/
def viewRequest (x : MemeId) : Request :=
  parseRequest (fun _ q => q) (targetText (str "GET") (str "/memes/" ++ x.text) '1' '1' (str "\r\n"))

theorem isGetFor_viewRequest (x : MemeId) : isGetFor x (viewRequest x) = true := by
  have hchar : ∀ c : Byte, isHexDigit c = true ∨ c = hyphen → notEol c = true ∧ c ≠ '?' := forall_byte (by decide +kernel)
  have hone : isDigit ('1' : Char) := by decide
  obtain ⟨hmethod, hcheck⟩ := parseRequest_memes (fun _ q => q) hone hone (str "\r\n")
    fun c hc => hchar c (checkId_chars x.valid c hc)
  unfold isGetFor viewRequest
  rw [hmethod, hcheck, x.cStr_text]
  simp

theorem exists_viewRun (like : Str → Str → Bool) (x : MemeId) (db₀ : Db) (k : Nat) :
    ∃ db, ViewRun (computes like) x db₀ k db := by
  refine ⟨_, List.replicate k (viewRequest x, x), _, List.length_replicate, fun i hi => ?_, runsEach_eval (fun _ _ => rfl) _ _ _⟩
  rw [List.eq_of_mem_replicate hi]
  exact isGetFor_viewRequest x

/-- A number that is no `int` keeps two memes from being listed. -/
theorem runs_unranked {ms : List Record} {M : Memes} (hr : Represents ms M) {x y : MemeId} {a b : Entry} (hx : M x = some a)
    (hy : M y = some b) (hne : y ≠ x) (hb : 2 ^ 31 ≤ b.views) (like : Str → Str → Bool) :
    ∃ out db', Runs (computes like) (memeDb ms) memeList out db' ∧ ¬ Ranks M out := by
  have hrun : Runs (computes like) (memeDb ms) memeList _ _ := runs_eval (fun _ _ => rfl) _ _
  refine ⟨_, _, hrun, ?_⟩
  rintro ⟨body, _, _, hout, -⟩
  obtain ⟨r, hf, h⟩ := runs_collect (documented_computes like) .all rfl hrun _ id
  obtain ⟨⟨found, hrows, hperm⟩, -⟩ := hf
  rw [List.filter_true] at hperm
  have hmem : ∀ {z c}, M z = some c → (record z c).row ∈ r.rows.map (·.map cStr) := by
    intro z c hz
    rw [← cStr_row z c, hrows]
    exact List.mem_map_of_mem (List.mem_map_of_mem (hperm.symm.subset (hr.mem hz)))
  obtain ⟨-, ⟨-, hcode⟩ | ⟨hsort, -⟩⟩ := runs_sorted h
  · rw [hout] at hcode
    cases hcode
  · refine hsort ⟨?_, _, hmem hy, .outOfRange, ?_⟩
    · have hrow : (record x a).row ≠ (record y b).row := fun he => hne (MemeId.text_injective (List.cons.inj he).1).symm
      have hsub : [(record x a).row, (record y b).row] ⊆ r.rows.map (·.map cStr) :=
        List.cons_subset.2 ⟨hmem hx, List.cons_subset.2 ⟨hmem hy, List.nil_subset _⟩⟩
      exact (List.subperm_of_subset (List.nodup_cons.2 ⟨by simpa using hrow, List.nodup_singleton _⟩) hsub).length_le
    · exact (stoi_dec_eq b.views).trans (if_neg (by omega))

/-- All of `n` views of a meme count if and only if all the numbers of views stay below `2^31`. -/
theorem counts_iff {ms : List Record} {M : Memes} (hr : Represents ms M) {x : MemeId} {a : Entry} (hx : M x = some a)
    (n : Nat) : (∀ like engine, Documented like engine → Counts engine ms M x n) ↔
      a.views + n < 2 ^ 31 ∧ ∀ y b, M y = some b → b.views < 2 ^ 31 := by
  constructor
  · intro h
    have h := h (fun _ _ => true) _ (documented_computes _)
    obtain ⟨db, hrun⟩ := exists_viewRun (fun _ _ => true) x (memeDb ms) n
    have hviews := readViews_lt (h.reads le_rfl hrun)
    rw [Memes.viewsOf_some hx] at hviews
    refine ⟨by omega, fun y b hy => ?_⟩
    by_cases hne : y = x
    · subst hne
      cases hx.symm.trans hy
      omega
    · by_contra hb
      obtain ⟨out, db', hlist, hout⟩ := runs_unranked hr hx hy hne (by omega) fun _ _ => true
      have hranks := h.ranks (Nat.zero_le n) ⟨[], [], rfl, nofun, .nil⟩ hlist
      rw [Memes.viewed_zero] at hranks
      exact hout hranks
  · rintro ⟨hn, hsmall⟩ like engine hd
    exact counts_of_small hd hr hx hn hsmall

/-! ## At the limit -/

/-- The sample is the only meme, and was not viewed yet. -/
def sampleMemes : Memes := Memes.create (fun _ => none) sampleId sampleTexts

theorem sampleMemes_id : sampleMemes sampleId = some ⟨sampleTexts, 0⟩ := by
  unfold sampleMemes Memes.create
  rw [Function.update_self]

theorem represents_sample : Represents [sample] sampleMemes := by
  refine ⟨List.nodup_singleton _, fun m => ?_⟩
  rw [List.mem_singleton]
  constructor
  · rintro rfl
    exact ⟨_, _, sampleMemes_id, rfl⟩
  · rintro ⟨x, a, hx, rfl⟩
    by_cases hid : x = sampleId
    · subst hid
      cases sampleMemes_id.symm.trans hx
      rfl
    · unfold sampleMemes Memes.create at hx
      rw [Function.update_of_ne hid] at hx
      cases hx

theorem sampleMemes_small (y : MemeId) (b : Entry) (h : sampleMemes y = some b) : b.views = 0 := by
  have h : Command.apply sampleId (fun _ => none) (.create sampleTexts) y = some b := h
  obtain ⟨-, hv⟩ | ⟨c, hc, -⟩ := Command.apply_some h
  · exact hv
  · cases hc

/-- A new meme can be viewed until its counter is the last `int`. -/
theorem counts_sample : Counts (computes fun _ _ => true) [sample] sampleMemes sampleId (2 ^ 31 - 1) := by
  refine (counts_iff represents_sample sampleMemes_id (2 ^ 31 - 1)).2 ⟨by decide, fun y b hb => ?_⟩ _ _ (documented_computes _)
  rw [sampleMemes_small y b hb]
  decide

/-- One more view, and the counter is the first `int`. -/
theorem counts_overflow : ∃ db out db', ViewRun (computes fun _ _ => true) sampleId (memeDb [sample]) (2 ^ 31 - 1) db ∧
    Runs (computes fun _ _ => true) db (serve firstId.text (viewRequest sampleId)) out db' ∧
    readViews db sampleId = some (2 ^ 31 - 1) ∧ readViews db' sampleId = some (-2 ^ 31) ∧
    ¬ Counts (computes fun _ _ => true) [sample] sampleMemes sampleId (2 ^ 31) := by
  have hd : Documented (fun _ _ => true) (computes fun _ _ => true) := documented_computes _
  obtain ⟨db, hrun⟩ := exists_viewRun (fun _ _ => true) sampleId (memeDb [sample]) (2 ^ 31 - 1)
  obtain ⟨ms, rfl, hr⟩ := hrun.represents hd represents_sample sampleMemes_id (by decide)
  have hx := Memes.viewed_self sampleMemes_id (2 ^ 31 - 1)
  have hreads : readViews (memeDb ms) sampleId = some (2 ^ 31 - 1) := by
    rw [readViews_represents hr hx]
    decide +kernel
  have hview : Runs (computes fun _ _ => true) (memeDb ms) (serve firstId.text (viewRequest sampleId)) _ _ :=
    runs_eval (fun _ _ => rfl) _ _
  have hi := isGetFor_viewRequest sampleId
  have hlast := runs_viewed_text hd hr hx (by decide) (i := (viewRequest sampleId, firstId)) hi hview
  refine ⟨_, _, _, hrun, hview, hreads, hlast.trans (by decide +kernel), fun h => ?_⟩
  obtain ⟨v, hv, hlt, -⟩ := h.adds (i := (viewRequest sampleId, firstId)) (by decide) hrun hi hview
  cases hreads.symm.trans hv
  exact absurd hlt (by decide)

end GittyUp.Meme
