import GittyUp.Http.Session
import GittyUp.Meme.Refinement
/-!
# Failures of the database

A request whose calls to SQLite may fail, each in any way. `reported_iff` says
when the answer reports the failure: the handler looks at the outcome of the one
statement that a creation, an update or a deletion makes, and at no other.
-/
open Lib Lib.Sql GittyUp.Http GittyUp.SqlLib

namespace GittyUp.Meme

/-! ## What has to be reported -/

/-- The memes that are stored, in a table that may not have been created yet. -/
def Stored (db : Db) (ms : List Record) : Prop := db = memeDb ms ∨ (db = [] ∧ ms = [])

/-- The status code that the client gets; `handle_error` answers when the handler throws. -/
def statusOf : Except StdException Response → Nat
  | .ok resp => resp.statusCode
  | .error _ => errorResponse.statusCode

/-- The rows as the handler reads them. -/
def readRows (r : Reply) : List Row := r.rows.map (·.map cStr)

namespace Command

/-- The id that a `GET` asks for. -/
def lookup : Command → Option Str
  | view x => some x.text
  | missing s _ => some (cStr s)
  | _ => none

/-- The memes that a list has to show. -/
def query (like : Str → Str → Bool) : Command → Option (Record → Bool)
  | list => some fun _ => true
  | search q => some (Statement.matching like q)
  | _ => none

/-- The statement that answers a command. -/
def statement (uuid : MemeId) : Command → Option Statement
  | create e => some (.insert uuid.text e.memeTemplate e.topCaption e.bottomCaption)
  | update x e => some (.edit x.text e.memeTemplate e.topCaption e.bottomCaption)
  | delete x => some (.remove x.text)
  | view x => some (.find x.text)
  | missing s _ => some (.find s)
  | list => some .all
  | search q => some (.search q)
  | settled _ => none

end Command

/-- The calls of a request, the answer, and the memes before it and the database behind it:
neither absence nor success is answered instead of a failure. -/
structure Reported (like : Str → Str → Bool) (uuid : MemeId) (req : Request) (ms : List Record)
    (log : List (Call × Reply)) (x : Except StdException Response) (db' : Db) : Prop where
  absent : ∀ id, (command req).lookup = some id → statusOf x = 404 → ∀ m ∈ ms, m.id ≠ id
  complete : ∀ keep, (command req).query like = some keep → statusOf x = 200 →
    ∃ rows : List Row, rows.Perm ((ms.filter keep).map fun m => m.row.map cStr) ∧
      x = .ok (respond 200 (getMimeType ".json") (listOutput rows))
  completed : req.method ∈ [str "POST", str "PUT", str "DELETE"] → statusOf x ∈ [200, 201] →
    ∃ st r, (command req).statement uuid = some st ∧ (st.call, r) ∈ log ∧ r.done = true
  reported : (∃ c ∈ log, failed c = true) → 500 ≤ statusOf x ∧ statusOf x < 600 ∧ Stored db' ms

/-- The counter of a row is not an `int`. -/
def Unparsable (row : Row) : Prop := ∃ e, stoi (entry row 4) = .error e

/-- There is something to compare, and a counter that is not an `int`. -/
def Unsortable (rows : List Row) : Prop := 2 ≤ rows.length ∧ ∃ row ∈ rows, Unparsable row

/-- The failing call, or what was read, makes the handler answer with 500 anyway. -/
def Noticed (uuid : MemeId) (log : List (Call × Reply)) (cmd : Command) : Prop :=
  match cmd with
  | .settled answer => ∃ e, answer = .error e
  | .create _ | .update _ _ | .delete _ => ∃ st r, cmd.statement uuid = some st ∧ (st.call, r) ∈ log ∧ r.done = false
  | .view _ | .missing _ _ => ∃ st r row, cmd.statement uuid = some st ∧ (st.call, r) ∈ log ∧ readRows r = [row] ∧
      Unparsable row
  | .list | .search _ => ∃ st r, cmd.statement uuid = some st ∧ (st.call, r) ∈ log ∧ Unsortable (readRows r)

/-! ## Statements that may fail -/

/-- The statements that are prepared and stepped through. -/
def Statement.runs : Statement → Bool
  | opening | creating | closing => false
  | _ => true

theorem Statement.runs_parse {st : Statement} (h : st.runs = true) :
    ∃ sql b stmt, st.call = .run sql b ∧ parseSql sql = some stmt ∧ stmt.needs = some tableName := by
  cases st with
  | opening | creating | closing => cases h
  | insert => exact ⟨_, _, _, rfl, parse_insertSql, rfl⟩
  | edit => exact ⟨_, _, _, rfl, parse_editSql, rfl⟩
  | count => exact ⟨_, _, _, rfl, parse_countSql, rfl⟩
  | remove => exact ⟨_, _, _, rfl, parse_removeSql, rfl⟩
  | find => exact ⟨_, _, _, rfl, parse_findSql, rfl⟩
  | all => exact ⟨_, _, _, rfl, parse_allSql, rfl⟩
  | search => exact ⟨_, _, _, rfl, parse_searchSql, rfl⟩

section Failing
variable {like : Str → Str → Bool} {engine : Db → Call → Reply → Db → Prop} {ms : List Record} {db d db' : Db}
  {l log : List (Call × Reply)} {x : Except StdException Response} {st : Statement} {r : Reply}

theorem Stored.lookup (h : Stored d ms) (ht : (d.lookup tableName).isSome) : d = memeDb ms := by
  rcases h with h | ⟨rfl, -⟩
  · exact h
  · cases ht

theorem attempt_unchanged (ha : Attempts like engine) (hst : st.runs = true) (h : engine d st.call r db')
    (hr : r.done = false) : db' = d := by
  obtain ⟨sql, b, stmt, hc, hp, -⟩ := Statement.runs_parse hst
  rw [hc] at h
  exact (ha.run hp h).unchanged hr

/-- A statement that succeeds has found the table and acts on it. -/
theorem attempt_acts (ha : Attempts like engine) (hst : st.runs = true) (hs : Stored d ms) (h : engine d st.call r db')
    (hr : r.done = true) : ∃ ms', db' = memeDb ms' ∧ st.Acts like ms r ms' := by
  obtain ⟨sql, b, stmt, hc, hp, hn⟩ := Statement.runs_parse hst
  have hd : d = memeDb ms := hs.lookup ((ha.run hp (hc ▸ h)).known hr _ hn)
  refine Statement.acts ha.documented st ⟨hd ▸ h, ?_⟩
  simp [hc, failed, hr]

/-- The handler reaches its command with the memes unchanged, whatever the constructor's calls do. -/
theorem runs_opened (ha : Attempts like engine) (hs : Stored db ms) {uuid : MemeId} {req : Request}
    {s' : Db × List (Call × Reply)} (h : Runs (logged engine) (db, []) (serve uuid.text req) x s') :
    ∃ r₁ r₂ d, Stored d ms ∧ Runs (logged engine)
      (d, [(Statement.opening.call, r₁), (Statement.creating.call, r₂)]) ((command req).prog uuid) x s' := by
  rw [serve_eq] at h
  obtain ⟨r₁, d₁, h₁, hk₁⟩ := h.logged_call
  obtain ⟨r₂, d₂, h₂, hk₂⟩ := hk₁.logged_call
  cases ha.connect h₁
  refine ⟨r₁, r₂, d₂, ?_, hk₂⟩
  have ht := ha.exec Statement.parse_createSql h₂
  cases hr : r₂.done with
  | false =>
    rw [ht.unchanged hr]
    exact hs
  | true =>
    obtain ⟨-, hnew, hold⟩ := ht.effect hr
    rcases hs with rfl | ⟨rfl, rfl⟩
    · exact .inl (hold (by rw [Statement.lookup_memeDb]; rfl))
    · exact .inl (hnew rfl)

/-! ## The statement of a command -/

/-- `st` was executed once, with the reply `r`, and if no call failed then on the memes `ms`. -/
structure Executed (like : Str → Str → Bool) (st : Statement) (ms : List Record) (log : List (Call × Reply)) (r : Reply) :
    Prop where
  mem : (st.call, r) ∈ log
  unique : ∀ r', (st.call, r') ∈ log → r' = r
  acts : (∀ c ∈ log, failed c = false) → ∃ ms', st.Acts like ms r ms'

theorem executed_third (ha : Attempts like engine) (hst : st.runs = true) (hs : Stored d ms) (h : engine d st.call r db')
    {r₁ r₂ : Reply} {t : List (Call × Reply)} (ht : ∀ c ∈ t, c.1 ≠ st.call)
    (hlog : log = [(Statement.opening.call, r₁), (Statement.creating.call, r₂)] ++ (st.call, r) :: t) :
    Executed like st ms log r := by
  obtain ⟨sql, b, -, hc, -⟩ := Statement.runs_parse hst
  subst hlog
  refine ⟨by simp, fun r' hr' => ?_, fun hok => ?_⟩
  · simp only [List.mem_append, List.mem_cons, List.not_mem_nil, or_false, Prod.mk.injEq] at hr'
    rcases hr' with (⟨he, -⟩ | ⟨he, -⟩) | ⟨-, he⟩ | hr'
    · rw [hc] at he
      cases he
    · rw [hc] at he
      cases he
    · exact he
    · exact absurd rfl (ht _ hr')
  · have hr : failed (st.call, r) = false := hok _ (by simp)
    obtain ⟨ms', -, hacts⟩ := attempt_acts ha hst hs h (by simpa [hc, failed] using hr)
    exact ⟨ms', hacts⟩

/-- A change is answered by its outcome. -/
theorem runs_changed (ha : Attempts like engine) (hst : st.runs = true) (hs : Stored d ms) {r₁ r₂ : Reply} {sql : Str}
    {values : List Str} (hc : st.call = .run sql (bindTexts values)) {a b : Response}
    (h : Runs (logged engine) (d, [(Statement.opening.call, r₁), (Statement.creating.call, r₂)])
      (change sql values >>= fun done => if done then .ret a else .ret b) x (db', log)) :
    ∃ r, Executed like st ms log r ∧
      ((r.done = true ∧ x = .ok a) ∨ (r.done = false ∧ x = .ok b ∧ Stored db' ms)) := by
  rw [change_bind, ← hc] at h
  obtain ⟨r, d', hr, hk⟩ := h.logged_call
  cases hdone : r.done with
  | true =>
    rw [if_pos hdone] at hk
    obtain ⟨r', d'', -, hk'⟩ := hk.logged_call
    obtain ⟨rfl, hlog⟩ := runs_ret.1 hk'
    refine ⟨r, executed_third ha hst hs hr (t := [(.finalize, r')]) ?_ (congrArg Prod.snd hlog), .inl ⟨hdone, rfl⟩⟩
    simp [hc]
  | false =>
    rw [if_neg (by simp [hdone])] at hk
    obtain ⟨rfl, hlog⟩ := runs_ret.1 hk
    cases hlog
    refine ⟨r, executed_third ha hst hs hr (t := []) (by simp) rfl, .inr ⟨hdone, rfl, ?_⟩⟩
    rwa [attempt_unchanged ha hst hr hdone]

/-- A query leaves the memes as they are, and what it has returned is read on. -/
theorem runs_queried (ha : Attempts like engine) (hst : st.runs = true) (hs : Stored d ms) {keep : Record → Bool}
    (hfinds : ∀ {r ms'}, st.Acts like ms r ms' → Statement.Finds keep ms r ms') {sql : Str} {values : List Str}
    (hc : st.call = .run sql (bindTexts values)) {k : List Row → SqlProg Response}
    (h : Runs (logged engine) (d, l) (collect sql values >>= k) x (db', log)) :
    ∃ r d' t, engine d st.call r d' ∧ Stored d' ms ∧ (∀ c ∈ t, c.1 = .finalize) ∧
      Runs (logged engine) (d', l ++ (st.call, r) :: t) (k (readRows r)) x (db', log) := by
  rw [collect_bind, ← hc] at h
  obtain ⟨r, d', hr, hk⟩ := h.logged_call
  cases hdone : r.done with
  | true =>
    rw [if_pos hdone] at hk
    obtain ⟨r', d'', hr', hk'⟩ := hk.logged_call
    cases ha.finalize hr'
    obtain ⟨ms', rfl, hacts⟩ := attempt_acts ha hst hs hr hdone
    refine ⟨r, _, [(.finalize, r')], hr, .inl (congrArg memeDb (hfinds hacts).2.2), by simp, ?_⟩
    rw [List.append_assoc] at hk'
    exact hk'
  | false =>
    rw [if_neg (by simp [hdone])] at hk
    cases attempt_unchanged ha hst hr hdone
    exact ⟨r, d, [], hr, hs, by simp, hk⟩

theorem compareMemes_keys : ComparesKeys compareMemes fun row => stoi (entry row 4) := fun _ _ => rfl

theorem runs_sorted {S : Type} {sem : S → Call → Reply → S → Prop} {s s' : S} {rows : List Row}
    (h : Runs sem s (answerList rows) x s') :
    s' = s ∧ ((Unsortable rows ∧ statusOf x = 500) ∨
      (¬ Unsortable rows ∧ ∃ sorted : List Row, sorted.Perm rows ∧
        x = .ok (respond 200 (getMimeType ".json") (listOutput sorted)))) := by
  have herror := stableSort_error_iff compareMemes_keys rows
  unfold answerList at h
  cases hsort : stableSort compareMemes rows with
  | error e =>
    rw [hsort] at h
    obtain ⟨rfl, rfl⟩ := runs_throw.1 h
    exact ⟨rfl, .inl ⟨herror.1 ⟨e, hsort⟩, rfl⟩⟩
  | ok sorted =>
    rw [hsort] at h
    rw [hsort] at herror
    obtain ⟨rfl, rfl⟩ := runs_ret.1 h
    exact ⟨rfl, .inr ⟨mt herror.2 nofun, sorted, stableSort_perm hsort, rfl⟩⟩

/-- A list answers with 200 and what was returned, if that can be sorted. -/
theorem runs_listed (ha : Attempts like engine) (hst : st.runs = true) (hs : Stored d ms) {keep : Record → Bool}
    (hfinds : ∀ {r ms'}, st.Acts like ms r ms' → Statement.Finds keep ms r ms') {r₁ r₂ : Reply} {sql : Str}
    {values : List Str} (hc : st.call = .run sql (bindTexts values))
    (h : Runs (logged engine) (d, [(Statement.opening.call, r₁), (Statement.creating.call, r₂)])
      (collect sql values >>= answerList) x (db', log)) :
    ∃ r, Executed like st ms log r ∧ ((Unsortable (readRows r) ∧ statusOf x = 500 ∧ Stored db' ms) ∨
      (¬ Unsortable (readRows r) ∧ ∃ sorted : List Row, sorted.Perm (readRows r) ∧
        x = .ok (respond 200 (getMimeType ".json") (listOutput sorted)))) := by
  obtain ⟨r, d', t, hr, hs', ht, hk⟩ := runs_queried ha hst hs hfinds hc h
  obtain ⟨hsame, hx⟩ := runs_sorted hk
  obtain ⟨rfl, hlog⟩ := Prod.mk.inj hsame
  refine ⟨r, executed_third ha hst hs hr (fun c hm => ?_) hlog, hx.imp_left fun hx => ⟨hx.1, hx.2, hs'⟩⟩
  rw [ht c hm, hc]
  nofun

/-- The answer behind the update of the counter. -/
def viewAnswer (row : Row) : SqlProg Response :=
  if entry row 1 = [] ∨ entry row 2 = [] ∨ entry row 3 = [] then return corrupted
  else return respond 200 (getMimeType ".json") (memeJson (entry row 1) (entry row 2) (entry row 3))

theorem runs_viewAnswer {row : Row} {s : Db × List (Call × Reply)}
    (h : Runs (logged engine) s (viewAnswer row) x (db', log)) : statusOf x ∈ [200, 400] ∧ s = (db', log) := by
  unfold viewAnswer at h
  split_ifs at h
  · obtain ⟨rfl, rfl⟩ := runs_ret.1 h
    exact ⟨List.mem_cons_of_mem _ List.mem_cons_self, rfl⟩
  · obtain ⟨rfl, rfl⟩ := runs_ret.1 h
    exact ⟨List.mem_cons_self, rfl⟩

theorem count_ne_find (b : Binds) (id : Str) : Call.run Statement.countSql b ≠ (Statement.find id).call := by
  intro he
  exact absurd (Call.run.inj he).1 (by decide +kernel)

/-- The outcome of the update is not looked at, and no call behind it reads the meme again. -/
theorem runs_counted {row : Row} {values : List Str}
    (h : Runs (logged engine) (d, l) (change Statement.countSql values >>= fun _ => viewAnswer row) x (db', log)) :
    statusOf x ∈ [200, 400] ∧ ∃ t, log = l ++ t ∧ ∀ c ∈ t, ∀ id, c.1 ≠ (Statement.find id).call := by
  rw [change_bind] at h
  obtain ⟨r, d', -, hk⟩ := h.logged_call
  cases hdone : r.done with
  | true =>
    -- the statement is finalized
    rw [if_pos hdone] at hk
    obtain ⟨r', d'', -, hk'⟩ := hk.logged_call
    obtain ⟨hx, hs⟩ := runs_viewAnswer hk'
    refine ⟨hx, _, (congrArg Prod.snd hs).symm.trans (List.append_assoc ..), ?_⟩
    intro c hm id
    rcases List.mem_append.1 hm with hm | hm
    · rw [List.mem_singleton.1 hm]
      exact count_ne_find _ id
    · rw [List.mem_singleton.1 hm]
      nofun
  | false =>
    rw [if_neg (by simp [hdone])] at hk
    obtain ⟨hx, hs⟩ := runs_viewAnswer hk
    refine ⟨hx, _, (congrArg Prod.snd hs).symm, ?_⟩
    intro c hm id
    rw [List.mem_singleton.1 hm]
    exact count_ne_find _ id

/-- What is answered to the rows that a `GET` by id has read. -/
theorem runs_viewed {rows : List Row} (h : Runs (logged engine) (d, l) (viewRows rows) x (db', log)) :
    (∃ t, log = l ++ t ∧ ∀ c ∈ t, ∀ id, c.1 ≠ (Statement.find id).call) ∧
      ((∃ row, rows = [row] ∧ Unparsable row ∧ statusOf x = 500 ∧ db' = d) ∨
        (∃ row, rows = [row] ∧ ¬ Unparsable row ∧ statusOf x ∈ [200, 400]) ∨
          (rows.length ≠ 1 ∧ statusOf x = 404)) := by
  unfold viewRows at h
  split at h
  · rename_i row
    cases hn : stoi (entry row 4) with
    | error e =>
      rw [hn] at h
      obtain ⟨rfl, hs⟩ := runs_throw.1 h
      cases hs
      exact ⟨⟨[], by simp, by simp⟩, .inl ⟨row, rfl, ⟨e, hn⟩, rfl, rfl⟩⟩
    | ok n =>
      rw [hn] at h
      have hrow : ¬ Unparsable row := by
        rintro ⟨e, he⟩
        cases he.symm.trans hn
      obtain ⟨hx, ht⟩ := runs_counted h
      exact ⟨ht, .inr (.inl ⟨row, rfl, hrow, hx⟩)⟩
  · obtain ⟨rfl, hs⟩ := runs_ret.1 h
    cases hs
    refine ⟨⟨[], by simp, by simp⟩, .inr (.inr ⟨fun hlen => ?_, rfl⟩)⟩
    obtain ⟨row, rfl⟩ := List.length_eq_one_iff.1 hlen
    rename_i hne
    exact hne row rfl

/-- A `GET` by id answers with 404 if it has not read one row. -/
theorem runs_found (ha : Attempts like engine) (hs : Stored d ms) {r₁ r₂ : Reply} {id : Str}
    (h : Runs (logged engine) (d, [(Statement.opening.call, r₁), (Statement.creating.call, r₂)])
      (getMemeById id) x (db', log)) :
    ∃ r, Executed like (.find id) ms log r ∧
      ((∃ row, readRows r = [row] ∧ Unparsable row ∧ statusOf x = 500 ∧ Stored db' ms) ∨
        (∃ row, readRows r = [row] ∧ ¬ Unparsable row ∧ statusOf x ∈ [200, 400]) ∨
          ((readRows r).length ≠ 1 ∧ statusOf x = 404)) := by
  obtain ⟨r, d', t, hr, hs', ht, hk⟩ := runs_queried ha (show (Statement.find id).runs = true from rfl) hs (fun ha => ha) rfl h
  obtain ⟨⟨t', hlog, ht'⟩, hx⟩ := runs_viewed hk
  refine ⟨r, executed_third ha rfl hs hr (t := t ++ t') (fun c hm => ?_)
    (hlog.trans (List.append_assoc ..)), ?_⟩
  · rcases List.mem_append.1 hm with hm | hm
    · rw [ht c hm]
      nofun
    · exact ht' c hm id
  · rcases hx with ⟨row, hrows, hrow, hx, rfl⟩ | hx
    · exact .inl ⟨row, hrows, hrow, hx, hs'⟩
    · exact .inr hx

/-! ## When it is reported -/

/-- The commands of `POST`, `PUT` and `DELETE`. -/
def Command.changes : Command → Bool
  | create _ | update _ _ | delete _ | settled _ => true
  | _ => false

theorem command_changes {req : Request} (h : req.method ∈ [str "POST", str "PUT", str "DELETE"]) :
    (command req).changes = true := by
  simp only [List.mem_cons, List.not_mem_nil, or_false] at h
  unfold command
  split_ifs with h1 h2 h3 h4
  · unfold createCommand
    split <;> rfl
  · unfold updateCommand
    split
    · rfl
    · rfl
    · split <;> rfl
  · unfold deleteCommand
    split <;> rfl
  · simp [h1, h2, h3] at h
  · rfl

/-- A request is answered with 500 if the failure is noticed, and with less if not. -/
theorem reported_iff_of {uuid : MemeId} {req : Request} {noticed : Prop}
    (hyes : noticed → statusOf x = 500 ∧ Stored db' ms) (hno : ¬ noticed → statusOf x < 500)
    (habsent : (∀ c ∈ log, failed c = false) → ∀ id, (command req).lookup = some id → statusOf x = 404 →
      ∀ m ∈ ms, m.id ≠ id)
    (hcomplete : (∀ c ∈ log, failed c = false) → ∀ keep, (command req).query like = some keep → statusOf x = 200 →
      ∃ rows : List Row, rows.Perm ((ms.filter keep).map fun m => m.row.map cStr) ∧
        x = .ok (respond 200 (getMimeType ".json") (listOutput rows)))
    (hcompleted : req.method ∈ [str "POST", str "PUT", str "DELETE"] → statusOf x ∈ [200, 201] →
      ∃ st r, (command req).statement uuid = some st ∧ (st.call, r) ∈ log ∧ r.done = true) :
    Reported like uuid req ms log x db' ↔ (∀ c ∈ log, failed c = false) ∨ noticed := by
  constructor
  · intro h
    by_contra hn
    obtain ⟨hfail, hnot⟩ := not_or.1 hn
    push Not at hfail
    obtain ⟨c, hc, hf⟩ := hfail
    have := (h.reported ⟨c, hc, by simpa using hf⟩).1
    have := hno hnot
    omega
  · rintro (hok | hn)
    · refine ⟨habsent hok, hcomplete hok, hcompleted, ?_⟩
      rintro ⟨c, hc, hf⟩
      rw [hok c hc] at hf
      cases hf
    · obtain ⟨hx, hs⟩ := hyes hn
      refine ⟨fun _ _ h => ?_, fun _ _ h => ?_, hcompleted, fun _ => ⟨hx.ge, by omega, hs⟩⟩
      · rw [hx] at h
        cases h
      · rw [hx] at h
        cases h

/-- Commands that make a change. -/
theorem reported_change {uuid : MemeId} {req : Request} {cmd : Command} (hc : command req = cmd)
    (hst : cmd.statement uuid = some st) (hl : cmd.lookup = none) (hq : cmd.query like = none) {a b : Response}
    (ha : a.statusCode < 500) (hb : b.statusCode = 500) (he : Executed like st ms log r)
    (hx : (r.done = true ∧ x = .ok a) ∨ (r.done = false ∧ x = .ok b ∧ Stored db' ms)) :
    Reported like uuid req ms log x db' ↔ (∀ c ∈ log, failed c = false) ∨
      ∃ st r, cmd.statement uuid = some st ∧ (st.call, r) ∈ log ∧ r.done = false := by
  subst hc
  refine reported_iff_of ?_ ?_ ?_ ?_ ?_
  · rintro ⟨st', r', hst', hr', hdone⟩
    cases hst.symm.trans hst'
    cases he.unique r' hr'
    rcases hx with ⟨hr, -⟩ | ⟨-, rfl, hs⟩
    · rw [hdone] at hr
      cases hr
    · exact ⟨hb, hs⟩
  · intro hn
    rcases hx with ⟨-, rfl⟩ | ⟨hr, -⟩
    · exact ha
    · exact absurd ⟨st, r, hst, he.mem, hr⟩ hn
  · rintro - id hid
    cases hl.symm.trans hid
  · rintro - keep hkeep
    cases hq.symm.trans hkeep
  · rintro - hcode
    rcases hx with ⟨hr, -⟩ | ⟨-, rfl, -⟩
    · exact ⟨st, r, hst, he.mem, hr⟩
    · rw [statusOf, hb] at hcode
      simp at hcode

/-- A key that is there once is found once. -/
theorem length_filter_id (hkey : (ms.map Record.id).Nodup) {m : Record} (hm : m ∈ ms) :
    (ms.filter fun m' => m'.id = m.id).length = 1 := by
  have hmem : m ∈ ms.filter fun m' => m'.id = m.id := by simpa using hm
  have hle : (ms.filter fun m' => m'.id = m.id).length ≤ 1 := by
    have hrep : (ms.filter fun m' => m'.id = m.id).map Record.id =
        List.replicate (ms.filter fun m' => m'.id = m.id).length m.id := by
      refine List.eq_replicate_iff.2 ⟨List.length_map .., fun b hb => ?_⟩
      obtain ⟨m', hm', rfl⟩ := List.mem_map.1 hb
      simpa using (List.mem_filter.1 hm').2
    have hnodup : ((ms.filter fun m' => m'.id = m.id).map Record.id).Nodup :=
      hkey.sublist (List.filter_sublist.map Record.id)
    rw [hrep] at hnodup
    exact List.nodup_replicate.1 hnodup
  exact Nat.le_antisymm hle (List.length_pos_of_mem hmem)

/-- The commands that ask for one meme. -/
theorem reported_find {uuid : MemeId} {req : Request} {cmd : Command} (hc : command req = cmd) {id : Str}
    (hst : cmd.statement uuid = some (.find id)) (hl : cmd.lookup = some (cStr id)) (hq : cmd.query like = none)
    (hch : cmd.changes = false) (hkey : (ms.map Record.id).Nodup) (he : Executed like (.find id) ms log r)
    (hx : (∃ row, readRows r = [row] ∧ Unparsable row ∧ statusOf x = 500 ∧ Stored db' ms) ∨
      (∃ row, readRows r = [row] ∧ ¬ Unparsable row ∧ statusOf x ∈ [200, 400]) ∨
        ((readRows r).length ≠ 1 ∧ statusOf x = 404)) :
    Reported like uuid req ms log x db' ↔ (∀ c ∈ log, failed c = false) ∨
      ∃ st r row, cmd.statement uuid = some st ∧ (st.call, r) ∈ log ∧ readRows r = [row] ∧ Unparsable row := by
  subst hc
  refine reported_iff_of ?_ ?_ ?_ ?_ ?_
  · rintro ⟨st', r', row', hst', hr', hrows', hbad⟩
    cases hst.symm.trans hst'
    cases he.unique r' hr'
    rcases hx with ⟨-, -, -, hx⟩ | ⟨row, hrows, hgood, -⟩ | ⟨hlen, -⟩
    · exact hx
    · cases hrows.symm.trans hrows'
      exact absurd hbad hgood
    · rw [hrows'] at hlen
      exact absurd rfl hlen
  · intro hn
    rcases hx with ⟨row, hrows, hbad, -⟩ | ⟨-, -, -, hx⟩ | ⟨-, hx⟩
    · exact absurd ⟨_, r, row, hst, he.mem, hrows, hbad⟩ hn
    · simp only [List.mem_cons, List.not_mem_nil, or_false] at hx
      omega
    · omega
  · rintro hok id' hid hcode m hm rfl
    have hid : cStr id = m.id := Option.some.inj (hl.symm.trans hid)
    obtain ⟨ms', ⟨found, hrows, hperm⟩, -⟩ := he.acts hok
    have hlen : (readRows r).length = 1 := by
      unfold readRows
      rw [List.length_map, hrows, List.length_map, hperm.length_eq, hid]
      exact length_filter_id hkey hm
    rcases hx with ⟨-, -, -, hx, -⟩ | ⟨-, -, -, hx⟩ | ⟨hne, -⟩
    · omega
    · rw [hcode] at hx
      simp at hx
    · exact hne hlen
  · rintro - keep hkeep
    cases hq.symm.trans hkeep
  · intro hmethod
    rw [command_changes hmethod] at hch
    cases hch

/-- The commands that ask for a list. -/
theorem reported_list {uuid : MemeId} {req : Request} {cmd : Command} (hc : command req = cmd)
    (hst : cmd.statement uuid = some st) (hl : cmd.lookup = none) {keep : Record → Bool}
    (hq : cmd.query like = some keep) (hch : cmd.changes = false)
    (hfinds : ∀ {r ms'}, st.Acts like ms r ms' → Statement.Finds keep ms r ms') (he : Executed like st ms log r)
    (hx : (Unsortable (readRows r) ∧ statusOf x = 500 ∧ Stored db' ms) ∨
      (¬ Unsortable (readRows r) ∧ ∃ sorted : List Row, sorted.Perm (readRows r) ∧
        x = .ok (respond 200 (getMimeType ".json") (listOutput sorted)))) :
    Reported like uuid req ms log x db' ↔ (∀ c ∈ log, failed c = false) ∨
      ∃ st r, cmd.statement uuid = some st ∧ (st.call, r) ∈ log ∧ Unsortable (readRows r) := by
  subst hc
  refine reported_iff_of ?_ ?_ ?_ ?_ ?_
  · rintro ⟨st', r', hst', hr', hbad⟩
    cases hst.symm.trans hst'
    cases he.unique r' hr'
    rcases hx with ⟨-, hx⟩ | ⟨hgood, -⟩
    · exact hx
    · exact absurd hbad hgood
  · intro hn
    rcases hx with ⟨hbad, -⟩ | ⟨-, sorted, -, rfl⟩
    · exact absurd ⟨st, r, hst, he.mem, hbad⟩ hn
    · exact Nat.lt_of_sub_eq_succ rfl
  · rintro - id hid
    cases hl.symm.trans hid
  · rintro hok keep' hkeep hcode
    cases hq.symm.trans hkeep
    obtain ⟨ms', hacts⟩ := he.acts hok
    obtain ⟨⟨found, hrows, hperm⟩, -⟩ := hfinds hacts
    rcases hx with ⟨-, hx, -⟩ | ⟨-, sorted, hsorted, rfl⟩
    · omega
    · refine ⟨sorted, hsorted.trans ?_, rfl⟩
      unfold readRows
      rw [hrows, List.map_map]
      exact hperm.map _
  · intro hmethod
    rw [command_changes hmethod] at hch
    cases hch

/-- The commands that need no statement. -/
theorem reported_settled {uuid : MemeId} {req : Request} (hs : Stored db' ms) (hc : command req = .settled x) :
    Reported like uuid req ms log x db' ↔ (∀ c ∈ log, failed c = false) ∨ ∃ e, x = .error e := by
  have hx := command_settles hc
  refine reported_iff_of ?_ ?_ ?_ ?_ ?_
  · rintro ⟨e, rfl⟩
    exact ⟨rfl, hs⟩
  · intro hn
    obtain rfl | ⟨resp, rfl, hcode, -⟩ := hx
    · exact absurd ⟨_, rfl⟩ hn
    · simp only [List.mem_cons, List.not_mem_nil, or_false] at hcode
      show resp.statusCode < 500
      omega
  · rintro - id hid
    rw [hc] at hid
    cases hid
  · rintro - keep hkeep
    rw [hc] at hkeep
    cases hkeep
  · rintro - hcode
    obtain rfl | ⟨resp, rfl, hcode', -⟩ := hx
    · exact absurd hcode (by decide)
    · have hcode : resp.statusCode ∈ [200, 201] := hcode
      simp only [List.mem_cons, List.not_mem_nil, or_false] at hcode hcode'
      omega

/-- Whatever calls fail, the answer reports a failure if and only if there was
none or the handler notices one. -/
theorem reported_iff (ha : Attempts like engine) (hs : Stored db ms) (hkey : (ms.map Record.id).Nodup) {uuid : MemeId}
    {req : Request} (h : Runs (logged engine) (db, []) (serve uuid.text req) x (db', log)) :
    Reported like uuid req ms log x db' ↔ (∀ c ∈ log, failed c = false) ∨ Noticed uuid log (command req) := by
  obtain ⟨r₁, r₂, d, hs, h⟩ := runs_opened ha hs h
  cases hc : command req with
  | create e =>
    rw [hc] at h
    have hst : (Statement.insert uuid.text e.memeTemplate e.topCaption e.bottomCaption).runs = true := rfl
    obtain ⟨r, he, hx⟩ := runs_changed ha hst hs
      rfl h
    exact reported_change hc rfl rfl rfl (Nat.lt_of_sub_eq_succ rfl) rfl he hx
  | update y e =>
    rw [hc] at h
    have hst : (Statement.edit y.text e.memeTemplate e.topCaption e.bottomCaption).runs = true := rfl
    obtain ⟨r, he, hx⟩ := runs_changed ha hst hs rfl h
    exact reported_change hc rfl rfl rfl (Nat.lt_of_sub_eq_succ rfl) rfl he hx
  | delete y =>
    rw [hc] at h
    have hst : (Statement.remove y.text).runs = true := rfl
    obtain ⟨r, he, hx⟩ := runs_changed ha hst hs rfl h
    exact reported_change hc rfl rfl rfl (Nat.lt_of_sub_eq_succ rfl) rfl he hx
  | view y =>
    rw [hc] at h
    obtain ⟨r, he, hx⟩ := runs_found ha hs h
    exact reported_find hc rfl (by rw [y.cStr_text]; rfl) rfl rfl hkey he hx
  | missing s hid =>
    rw [hc] at h
    obtain ⟨r, he, hx⟩ := runs_found ha hs h
    exact reported_find hc rfl rfl rfl rfl hkey he hx
  | list =>
    rw [hc] at h
    have hst : Statement.all.runs = true := rfl
    obtain ⟨r, he, hx⟩ := runs_listed ha hst hs id rfl h
    exact reported_list hc rfl rfl rfl rfl id he hx
  | search q =>
    rw [hc] at h
    have hst : (Statement.search q).runs = true := rfl
    obtain ⟨r, he, hx⟩ := runs_listed ha hst hs id rfl h
    exact reported_list hc rfl rfl rfl rfl id he hx
  | settled answer =>
    rw [hc] at h
    have hx : x = answer ∧ db' = d := by
      cases answer with
      | ok resp =>
        obtain ⟨rfl, hs'⟩ := runs_ret.1 h
        exact ⟨rfl, congrArg Prod.fst hs'⟩
      | error e =>
        obtain ⟨rfl, hs'⟩ := runs_throw.1 h
        exact ⟨rfl, congrArg Prod.fst hs'⟩
    obtain ⟨rfl, rfl⟩ := hx
    exact reported_settled hs hc

end Failing

/-! ## Samples -/

def sample : Record := ⟨sampleId.text, "a.jpg", "b c", "d!", "0"⟩

def sampleTexts : Texts := ⟨"a.jpg", "b c", "d!", by unfold Caption; decide⟩

/-- A request alone, when the calls that `fails` picks fail: the outcome, and behind it the
database and the calls. -/
def attempt (fails : Call → Bool) (req : Request) : Except StdException Response × Db × List (Call × Reply) :=
  (serve firstId.text req).eval (loggedStep (faultyEngine fails fun _ _ => true)) (memeDb [sample], [])

theorem runs_attempt (fails : Call → Bool) (req : Request) : Runs (logged (faulty fails fun _ _ => true))
    (memeDb [sample], []) (serve firstId.text req) (attempt fails req).1 (attempt fails req).2 :=
  runs_eval (logged_step fun _ _ => rfl) _ _

def findFails (c : Call) : Bool :=
  match c with
  | .run sql _ => sql = Statement.findSql
  | _ => false

theorem reported_iff_view : statusOf (attempt (fun _ => false) (viewing firstId).1).1 = 200 ∧
    Reported (fun _ _ => true) firstId (viewing firstId).1 [sample] (attempt (fun _ => false) (viewing firstId).1).2.2
      (attempt (fun _ => false) (viewing firstId).1).1 (attempt (fun _ => false) (viewing firstId).1).2.1 := by
  have hrun := runs_attempt (fun _ => false) (viewing firstId).1
  obtain ⟨hcode, hok⟩ : statusOf (attempt (fun _ => false) (viewing firstId).1).1 = 200 ∧
      ∀ c ∈ (attempt (fun _ => false) (viewing firstId).1).2.2, failed c = false := by decide +kernel
  have hstored : Stored (memeDb [sample]) [sample] := .inl rfl
  refine ⟨hcode, ?_⟩
  generalize attempt (fun _ => false) (viewing firstId).1 = a at hrun hok ⊢
  exact (reported_iff (attempts_faulty _ _) hstored (by simp) hrun).2 (.inl hok)

/-- A meme that is there is answered with 404 when the `SELECT` fails. -/
theorem reported_iff_find : Attempts (fun _ _ => true) (faulty findFails fun _ _ => true) ∧
    ∃ x db' log, Runs (logged (faulty findFails fun _ _ => true)) (memeDb [sample], [])
        (serve firstId.text (viewing firstId).1) x (db', log) ∧
      (command (viewing firstId).1).lookup = some sample.id ∧ statusOf x = 404 ∧
      ¬ Reported (fun _ _ => true) firstId (viewing firstId).1 [sample] log x db' := by
  have hcode : statusOf (attempt findFails (viewing firstId).1).1 = 404 := by decide +kernel
  have hid : (command (viewing firstId).1).lookup = some sample.id := by decide +kernel
  refine ⟨attempts_faulty _ _, _, _, _, runs_attempt findFails _, hid, hcode, fun h => ?_⟩
  exact h.absent _ hid hcode sample (by simp) rfl

end GittyUp.Meme
