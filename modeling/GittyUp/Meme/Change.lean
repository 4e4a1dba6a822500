import GittyUp.Meme.Failure
import GittyUp.Meme.Store
/-!
# Updates and deletions

What a `PUT` or a `DELETE` answers, against what it has changed. SQLite reports
success also when no row has the id, and the handler looks no further, so the
answer is right only for an id that is in the table or is none.
-/
open Lib Lib.Sql GittyUp.Http GittyUp.SqlLib

namespace GittyUp.Meme

/-! ## The ids in a reachable table -/

/-- A call of a statement that inserts no other id than a UUID. -/
def SoundCall (c : Call) : Prop := ∃ st : Statement, c = st.call ∧ st.Sound

/-- All the stored ids are UUIDs. -/
def SoundTable (db : Db) : Prop := ∃ ms, db = memeDb ms ∧ ∀ m ∈ ms, checkId m.id = true

/-- A request makes no other calls. -/
theorem soundCalls : Composable fun p => p.Calls SoundCall where
  ofExcept x := .ofExcept x
  bind hp hf := .bind hp hf
  opening := ⟨⟨.opening, rfl, trivial⟩, fun _ => trivial⟩
  creating := ⟨⟨.creating, rfl, trivial⟩, fun _ => trivial⟩
  runOnce st k hst hs := by
    refine ⟨⟨st, hst.symm, hs⟩, fun r => ?_⟩
    beta_reduce
    split
    · exact ⟨⟨.closing, rfl, trivial⟩, fun _ => trivial⟩
    · trivial

/-- Every statement keeps the ids. -/
theorem soundTable_step {like : Str → Str → Bool} {engine : Db → Call → Reply → Db → Prop} (hd : Documented like engine)
    {db db' : Db} {c : Call} {r : Reply} (hc : SoundCall c) (h : SoundTable db) (hs : engine db c r db') :
    SoundTable db' := by
  obtain ⟨st, rfl, hsound⟩ := hc
  obtain ⟨ms, rfl, hids⟩ := h
  obtain ⟨ms', rfl, ha⟩ := Statement.acts hd st hs
  refine ⟨ms', rfl, ?_⟩
  have same : ∀ {f : Record → Record}, (∀ m, (f m).id = m.id) → ∀ m ∈ ms.map f, checkId m.id = true := by
    intro f hf m hm
    obtain ⟨m₀, hm₀, rfl⟩ := List.mem_map.1 hm
    rw [hf]
    exact hids m₀ hm₀
  cases st with
  | opening | creating | closing =>
    cases ha
    exact hids
  | insert id t p b =>
    by_cases hex : ∃ m ∈ ms, m.id = cStr id
    · rw [(ha.1 hex).2]
      exact hids
    · push Not at hex
      rw [(ha.2 hex).2]
      intro m hm
      rcases List.mem_append.1 hm with hm | hm
      · exact hids m hm
      · rw [List.mem_singleton.1 hm]
        exact hsound
  | edit id t p b =>
    rw [ha.2]
    apply same
    intro m
    split <;> rfl
  | count id v =>
    rw [ha.2]
    apply same
    intro m
    split <;> rfl
  | remove id =>
    rw [ha.2]
    exact fun m hm => hids m (List.mem_filter.1 hm).1
  | find id | all | search q =>
    cases ha.2.2
    exact hids

/-- The ids of a reachable table are UUIDs, in whatever order the statements come. -/
theorem reachable_ids {like : Str → Str → Bool} {engine : Db → Call → Reply → Db → Prop} (hd : Documented like engine)
    {allowed : Trace → Call → MemeWorld → MemeWorld → Prop} {p : Pool Db Call Reply StdException Response Input}
    (h : Reachable (memeSystem engine allowed) (memeDb []) p) {ms : List Record} (hms : p.world.store = memeDb ms) :
    ∀ m ∈ ms, checkId m.id = true := by
  obtain ⟨ms', hms', hids⟩ := h.store (fun i => soundCalls.serve i.2 i.1) (I := SoundTable) ⟨[], rfl, nofun⟩ (soundTable_step hd)
  cases memeDb_injective (hms.symm.trans hms')
  exact hids

/-! ## What a request changes -/

/-- An update of the meme `id` with the parameters of the body. -/
def updated (id : Str) (params : List Str) (ms : List Record) : List Record :=
  ms.map fun m => if m.id = id then
    { m with memeTemplate := params.getD 0 [], topCaption := params.getD 1 [], bottomCaption := params.getD 2 [] } else m

def removed (id : Str) (ms : List Record) : List Record := ms.filter fun m => m.id ≠ id

/-- A `PUT` with a valid body or a `DELETE`, and what it is to do to the table. -/
inductive Changes (req : Request) : (List Record → List Record) → Prop
  | put {params} : req.method = str "PUT" → bodyCheck req.requestBody = .ok (some params) →
      Changes req (updated (checkUri req.uri) params)
  | delete : req.method = str "DELETE" → Changes req (removed (checkUri req.uri))

/-- The answer is 200 just when there was a meme with the id and it was changed, and
an id that is not in the table is answered with an error and changes nothing. -/
structure Told (req : Request) (change : List Record → List Record) (ms : List Record)
    (x : Except StdException Response) (db' : Db) : Prop where
  ok : statusOf x = 200 ↔ (∃ m ∈ ms, m.id = checkUri req.uri) ∧ db' = memeDb (change ms)
  absent : checkId (checkUri req.uri) = true → (∀ m ∈ ms, m.id ≠ checkUri req.uri) → 400 ≤ statusOf x ∧ db' = memeDb ms

theorem updated_absent {id : Str} (params : List Str) {ms : List Record} (h : ∀ m ∈ ms, m.id ≠ id) :
    updated id params ms = ms := by
  unfold updated
  rw [List.map_congr_left fun m hm => if_neg (h m hm), List.map_id']

theorem removed_absent {id : Str} {ms : List Record} (h : ∀ m ∈ ms, m.id ≠ id) : removed id ms = ms :=
  List.filter_eq_self.2 fun m hm => by simpa using h m hm

/-- An id that is not in the table changes nothing. -/
theorem Changes.absent {req : Request} {change : List Record → List Record} (h : Changes req change) {ms : List Record}
    (habsent : ∀ m ∈ ms, m.id ≠ checkUri req.uri) : change ms = ms := by
  cases h with
  | put => exact updated_absent _ habsent
  | delete => exact removed_absent habsent

section Answers
variable {like : Str → Str → Bool} {engine : Db → Call → Reply → Db → Prop} {ms : List Record} {db' : Db}
  {x : Except StdException Response}

/-- Every id is answered with 200 that is one, and only these. -/
theorem runs_changes (hd : Documented like engine) {i : Input} {change : List Record → List Record}
    (hc : Changes i.1 change) (h : Runs engine (memeDb ms) (serve i.2.text i.1) x db') :
    if checkId (checkUri i.1.uri) then statusOf x = 200 ∧ db' = memeDb (change ms)
    else statusOf x = 400 ∧ db' = memeDb ms := by
  have h := runs_command hd i h
  cases hc with
  | @put params hmethod hbody =>
    have hcommand : command i.1 = updateCommand (checkUri i.1.uri) i.1.requestBody := by
      unfold command
      rw [hmethod, if_neg (by decide), if_pos rfl]
    obtain ⟨-, he⟩ | ⟨-, he⟩ | ⟨e, hr, he⟩ := readTexts_cases i.1.requestBody
    · cases hbody.symm.trans he
    · cases hbody.symm.trans he
    · cases hbody.symm.trans he
      rw [hcommand, updateCommand, hr] at h
      dsimp only at h
      split
      · rename_i hid
        rw [dif_pos hid] at h
        obtain ⟨r, ms', ha, h⟩ := runs_change hd
          (.edit (checkUri i.1.uri) e.memeTemplate e.topCaption e.bottomCaption) rfl h fun ha => ha.1
        obtain ⟨rfl, rfl⟩ := runs_ret.1 h
        obtain ⟨ht, hp, hb⟩ := e.valid
        refine ⟨rfl, ?_⟩
        rw [ha.2, MemeId.cStr_text ⟨_, hid⟩, caption_noNul ht, caption_noNul hp, caption_noNul hb]
        rfl
      · rename_i hid
        rw [dif_neg hid] at h
        obtain ⟨rfl, rfl⟩ := runs_ret.1 h
        exact ⟨rfl, rfl⟩
  | delete hmethod =>
    have hcommand : command i.1 = deleteCommand (checkUri i.1.uri) := by
      unfold command
      rw [hmethod, if_neg (by decide), if_neg (by decide), if_pos rfl]
    rw [hcommand, deleteCommand] at h
    split
    · rename_i hid
      rw [dif_pos hid] at h
      obtain ⟨r, ms', ha, h⟩ := runs_change hd (.remove (checkUri i.1.uri)) rfl h fun ha => ha.1
      obtain ⟨rfl, rfl⟩ := runs_ret.1 h
      refine ⟨rfl, ?_⟩
      rw [ha.2, MemeId.cStr_text ⟨_, hid⟩]
      rfl
    · rename_i hid
      rw [dif_neg hid] at h
      obtain ⟨rfl, rfl⟩ := runs_ret.1 h
      exact ⟨rfl, rfl⟩

/-- From a reachable table, a request alone is told what happened if and only if its
id is in the table or is no id. -/
theorem told_iff (hd : Documented like engine) {allowed : Trace → Call → MemeWorld → MemeWorld → Prop}
    {p : Pool Db Call Reply StdException Response Input} (hp : Reachable (memeSystem engine allowed) (memeDb []) p)
    (hms : p.world.store = memeDb ms) {i : Input} {change : List Record → List Record} (hc : Changes i.1 change)
    (h : Runs engine p.world.store (serve i.2.text i.1) x db') :
    Told i.1 change ms x db' ↔ checkId (checkUri i.1.uri) = false ∨ ∃ m ∈ ms, m.id = checkUri i.1.uri := by
  have hids := reachable_ids hd hp hms
  rw [hms] at h
  have hrun := runs_changes hd hc h
  cases hid : checkId (checkUri i.1.uri) with
  | false =>
    rw [hid, if_neg (by simp)] at hrun
    obtain ⟨hx, hdb⟩ := hrun
    -- no id that is none is in the table
    have hnone : ¬ ∃ m ∈ ms, m.id = checkUri i.1.uri := by
      rintro ⟨m, hm, he⟩
      have := hids m hm
      rw [he, hid] at this
      cases this
    refine iff_of_true ⟨?_, fun hid' => ?_⟩ (.inl rfl)
    · rw [hx]
      exact iff_of_false (by decide) fun h => hnone h.1
    · rw [hid] at hid'
      cases hid'
  | true =>
    rw [hid, if_pos rfl] at hrun
    obtain ⟨hx, hdb⟩ := hrun
    constructor
    · intro ht
      exact .inr (ht.ok.1 hx).1
    · rintro (h | hex)
      · cases h
      · refine ⟨iff_of_true hx ⟨hex, hdb⟩, fun _ habsent => ?_⟩
        obtain ⟨m, hm, he⟩ := hex
        exact absurd he (habsent m hm)

end Answers

/-! ## Samples -/

/-- A deletion, with the UUID that it would draw. -/
def deleting (uuid : MemeId) : Input := (ask "DELETE" "/memes/01234567-89ab-cdef-0123-456789abcdef" [], uuid)

theorem deleting_reads : (deleting firstId).1.method = str "DELETE" ∧ checkUri (deleting firstId).1.uri = sampleId.text := by
  decide +kernel

theorem deleting_changes : Changes (deleting firstId).1 (removed (checkUri (deleting firstId).1.uri)) :=
  .delete deleting_reads.1

theorem runs_deleting (db : Db) : Runs (computes fun _ _ => true) db (serve (deleting firstId).2.text (deleting firstId).1)
    ((serve (deleting firstId).2.text (deleting firstId).1).eval (textEngine fun _ _ => true) db).1
    ((serve (deleting firstId).2.text (deleting firstId).1).eval (textEngine fun _ _ => true) db).2 :=
  runs_eval (fun _ _ => rfl) _ _

/-- A run after which the sample is stored. -/
theorem sample_stored : ∃ p, Reachable (memeSystem (computes fun _ _ => true) anyOrder) (memeDb []) p ∧
    p.world.store = memeDb [sample] := by
  have h : ((memeReplay fun _ _ _ _ => true).run (memeDb []) [.arrive creation, .call 0, .call 0, .call 0, .call 0]).any
      (fun p => p.world.store = memeDb [sample]) = true := by decide +kernel
  obtain ⟨p, hp, hstore⟩ := (Option.any_eq_true _ _).1 h
  exact ⟨p, (memeReplay_fits fun _ _ _ _ _ => trivial).reachable hp, of_decide_eq_true hstore⟩

theorem told_deletion : ∃ x db', Runs (computes fun _ _ => true) (memeDb [sample])
      (serve (deleting firstId).2.text (deleting firstId).1) x db' ∧
    Told (deleting firstId).1 (removed (checkUri (deleting firstId).1.uri)) [sample] x db' := by
  obtain ⟨p, hp, hstore⟩ := sample_stored
  have hrun := runs_deleting (memeDb [sample])
  refine ⟨_, _, hrun, (told_iff (documented_computes _) hp hstore deleting_changes (hstore ▸ hrun)).2 (.inr ?_)⟩
  exact ⟨sample, List.mem_singleton_self _, deleting_reads.2.symm⟩

/-- The deletion of a meme that is not there is answered with 200. -/
theorem told_nothing : ∃ x db', Reachable (memeSystem (computes fun _ _ => true) anyOrder) (memeDb [])
      ⟨⟨[], memeDb [], []⟩, []⟩ ∧
    Changes (deleting firstId).1 (removed (checkUri (deleting firstId).1.uri)) ∧
    Runs (computes fun _ _ => true) (memeDb []) (serve (deleting firstId).2.text (deleting firstId).1) x db' ∧
    statusOf x = 200 ∧ ¬ Told (deleting firstId).1 (removed (checkUri (deleting firstId).1.uri)) [] x db' := by
  have hrun := runs_deleting (memeDb [])
  have hcode := runs_changes (documented_computes _) deleting_changes hrun
  rw [deleting_reads.2, if_pos sampleId.valid] at hcode
  refine ⟨_, _, .init, deleting_changes, hrun, hcode.1, fun h => ?_⟩
  obtain ⟨⟨m, hm, -⟩, -⟩ := h.ok.1 hcode.1
  cases hm

end GittyUp.Meme
