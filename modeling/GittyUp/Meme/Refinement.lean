import GittyUp.Lib.Prog
import GittyUp.Meme.Command
import GittyUp.Meme.Listing
/-!
# The store refines a map

Requests given one at a time: the table is at all times the map that their
commands make, and each answer is the one that the map gives.
-/
open Lib Lib.Sql GittyUp.Http GittyUp.SqlLib

namespace GittyUp.Meme

/-- A request with the UUID that is drawn for it. -/
abbrev Input := Request × MemeId

namespace Command

/-- What a command makes of the map. -/
def apply (uuid : MemeId) (M : Memes) : Command → Memes
  | create e => M.create uuid e
  | update x e => M.edit x e
  | delete x => M.remove x
  | view x => M.modify x fun a => { a with views := a.views + 1 }
  | _ => M

/-- What a command is answered. -/
def Answered (uuid : MemeId) (M : Memes) (out : Except StdException Response) : Command → Prop
  | create _ => out = .ok (answerId 201 uuid)
  | update x _ => out = .ok (answerId 200 x)
  | delete x => out = .ok (answerId 200 x)
  | view x => out = .ok (((M x).map shown).getD notFound)
  | missing _ _ => out = .ok notFound
  | list | search _ => ∃ body, out = .ok (respond 200 (getMimeType ".json") body)
  | settled answer => out = answer ∧ Settles answer

end Command

/-- The map after some requests. -/
def mapAfter (inputs : List Input) : Memes := inputs.foldl (fun M i => (command i.1).apply i.2 M) fun _ => none

/-! ## Commands on the map -/

theorem Memes.modify_absent {M : Memes} {x : MemeId} (h : M x = none) (f : Entry → Entry) : M.modify x f = M := by
  rw [Memes.modify, h, Option.map_none, ← h, Function.update_eq_self]

theorem Memes.modify_some {M : Memes} {x y : MemeId} {g : Entry → Entry} {a : Entry} (h : M.modify y g x = some a) :
    ∃ b, M x = some b ∧ (a = b ∨ a = g b) := by
  unfold Memes.modify at h
  by_cases hxy : x = y
  · subst hxy
    rw [Function.update_self] at h
    obtain ⟨b, hb, rfl⟩ := Option.map_eq_some_iff.1 h
    exact ⟨b, hb, .inr rfl⟩
  · rw [Function.update_of_ne hxy] at h
    exact ⟨a, h, .inl rfl⟩

theorem Memes.remove_some {M : Memes} {x y : MemeId} {a : Entry} (h : M.remove y x = some a) : M x = some a := by
  unfold Memes.remove at h
  by_cases hxy : x = y
  · subst hxy
    rw [Function.update_self] at h
    cases h
  · rwa [Function.update_of_ne hxy] at h

/-- A meme is new with no views, or was there and has one view more at most. -/
theorem Command.apply_some {uuid x : MemeId} {M : Memes} {cmd : Command} {a : Entry} (h : cmd.apply uuid M x = some a) :
    x = uuid ∧ a.views = 0 ∨ ∃ b, M x = some b ∧ a.views ≤ b.views + 1 := by
  cases cmd with
  | create e =>
    by_cases hx : x = uuid
    · subst hx
      rw [Command.apply, Memes.create, Function.update_self] at h
      cases h
      exact .inl ⟨rfl, rfl⟩
    · exact .inr ⟨a, (Function.update_of_ne hx _ _).symm.trans h, Nat.le_succ _⟩
  | update y e =>
    obtain ⟨b, hb, rfl | rfl⟩ := Memes.modify_some h
    · exact .inr ⟨_, hb, Nat.le_succ _⟩
    · exact .inr ⟨_, hb, Nat.le_succ _⟩
  | view y =>
    obtain ⟨b, hb, rfl | rfl⟩ := Memes.modify_some h
    · exact .inr ⟨_, hb, Nat.le_succ _⟩
    · exact .inr ⟨_, hb, le_rfl⟩
  | delete y => exact .inr ⟨a, Memes.remove_some h, Nat.le_succ _⟩
  | missing | list | search | settled => exact .inr ⟨a, h, Nat.le_succ _⟩

/-- Only memes that were created are there, and each request adds one view at most. -/
theorem mapAfter_some (inputs : List Input) {x : MemeId} {a : Entry} (h : mapAfter inputs x = some a) :
    x ∈ inputs.map Prod.snd ∧ a.views ≤ inputs.length := by
  induction inputs using List.reverseRecOn generalizing a with
  | nil => cases h
  | append_singleton inputs i ih =>
    rw [mapAfter, List.foldl_append, List.foldl_cons, List.foldl_nil] at h
    rw [List.map_append, List.mem_append, List.length_append]
    obtain ⟨rfl, hv⟩ | ⟨b, hb, hle⟩ := Command.apply_some h
    · exact ⟨.inr (List.mem_singleton_self _), by omega⟩
    · obtain ⟨hmem, hv⟩ := ih hb
      exact ⟨.inl hmem, hle.trans (Nat.succ_le_succ hv)⟩

/-! ## One request alone -/

section Alone
variable {like : Str → Str → Bool} {engine : Db → Call → Reply → Db → Prop} {ms : List Record} {M : Memes} {db' : Db}
  {α : Type} {x : Except StdException α}

theorem runs_statement (hd : Documented like engine) {st : Statement} {k : Reply → SqlProg α}
    (h : Runs engine (memeDb ms) (.call st.call k) x db') :
    ∃ r ms', st.Acts like ms r ms' ∧ Runs engine (memeDb ms') (k r) x db' := by
  obtain ⟨r, db₁, hs, hk⟩ := runs_call.1 h
  obtain ⟨ms', rfl, ha⟩ := Statement.acts hd st hs
  exact ⟨r, ms', ha, hk⟩

/-- A statement that leaves the table as it is. -/
theorem runs_idle (hd : Documented like engine) (st : Statement) (hst : ∀ {r ms'}, st.Acts like ms r ms' → ms' = ms)
    {p : SqlProg α} (h : Runs engine (memeDb ms) (.call st.call fun _ => p) x db') :
    Runs engine (memeDb ms) p x db' := by
  obtain ⟨r, ms', ha, h⟩ := runs_statement hd h
  rwa [hst ha] at h

/-- A change that succeeds, and what comes behind it. -/
theorem runs_change (hd : Documented like engine) {sql : Str} {values : List Str} (st : Statement)
    (hst : st.call = .run sql (bindTexts values)) {k : Bool → SqlProg α}
    (h : Runs engine (memeDb ms) (change sql values >>= k) x db')
    (hdone : ∀ {r ms'}, st.Acts like ms r ms' → r.done = true) :
    ∃ r ms', st.Acts like ms r ms' ∧ Runs engine (memeDb ms') (k true) x db' := by
  rw [change_bind, ← hst] at h
  obtain ⟨r, ms', ha, h⟩ := runs_statement hd h
  rw [if_pos (hdone ha)] at h
  exact ⟨r, ms', ha, runs_idle hd .closing id h⟩

/-- A query, and what comes behind it. -/
theorem runs_collect (hd : Documented like engine) {sql : Str} {values : List Str} (st : Statement)
    (hst : st.call = .run sql (bindTexts values)) {k : List Row → SqlProg α}
    (h : Runs engine (memeDb ms) (collect sql values >>= k) x db') (keep : Record → Bool)
    (hfinds : ∀ {r ms'}, st.Acts like ms r ms' → Statement.Finds keep ms r ms') :
    ∃ r, Statement.Finds keep ms r ms ∧ Runs engine (memeDb ms) (k (r.rows.map (·.map cStr))) x db' := by
  rw [collect_bind, ← hst] at h
  obtain ⟨r, ms', ha, h⟩ := runs_statement hd h
  have hf := hfinds ha
  rw [if_pos hf.2.1, hf.2.2] at h
  exact ⟨r, hf.2.2 ▸ hf, runs_idle hd .closing id h⟩

theorem runs_query (hd : Documented like engine) {sql : Str} {values : List Str} (st : Statement)
    (hst : st.call = .run sql (bindTexts values)) {rows : Except StdException (List Row)}
    (h : Runs engine (memeDb ms) (collect sql values) rows db') {keep : Record → Bool}
    (hfinds : ∀ {r ms'}, st.Acts like ms r ms' → Statement.Finds keep ms r ms') :
    ∃ r, Statement.Finds keep ms r ms ∧ rows = .ok (r.rows.map (·.map cStr)) ∧ db' = memeDb ms := by
  rw [← Prog.bind_ret (collect sql values)] at h
  obtain ⟨r, hf, h⟩ := runs_collect hd st hst h keep hfinds
  exact ⟨r, hf, runs_ret.1 h⟩

/-- The rows that a query finds are read as they are, and can be listed. -/
theorem Represents.finds (hr : Represents ms M) (hsmall : ∀ x a, M x = some a → a.views < 2 ^ 31) {keep : Record → Bool}
    {r : Reply} {ms' : List Record} (hf : Statement.Finds keep ms r ms') :
    ∃ found : List Record, r.rows.map (·.map cStr) = found.map Record.row ∧ found.Perm (ms.filter keep) ∧
      ∀ m ∈ found, ∃ x a, m = record x a ∧ a.views < 2 ^ 31 := by
  obtain ⟨⟨found, hrows, hperm⟩, -⟩ := hf
  have hfound : ∀ m ∈ found, ∃ x a, m = record x a ∧ a.views < 2 ^ 31 := by
    intro m hm
    obtain ⟨x, a, hx, rfl⟩ := (hr.mem_iff m).1 (List.mem_filter.1 (hperm.subset hm)).1
    exact ⟨x, a, rfl, hsmall x a hx⟩
  refine ⟨found, ?_, hperm, hfound⟩
  rw [hrows, List.map_map]
  refine List.map_congr_left fun m hm => ?_
  obtain ⟨x, a, rfl, -⟩ := hfound m hm
  exact cStr_row x a

variable {out : Except StdException Response}

theorem runs_view (hd : Documented like engine) (hr : Represents ms M) (uuid y : MemeId)
    (hsmall : ∀ a, M y = some a → a.views < 2 ^ 31 - 1) (h : Runs engine (memeDb ms) (getMemeById y.text) out db') :
    ∃ ms', db' = memeDb ms' ∧ Represents ms' ((Command.view y).apply uuid M) ∧
      (Command.view y).Answered uuid M out := by
  obtain ⟨r, hf, h⟩ := runs_collect hd (.find y.text) rfl h (fun m => m.id = y.text)
    fun ha => by rwa [Statement.Acts, y.cStr_text] at ha
  have hrows := hr.find hf
  cases hy : M y with
  | none =>
    rw [hrows, hy] at h
    obtain ⟨rfl, rfl⟩ := runs_ret.1 h
    refine ⟨ms, rfl, ?_, ?_⟩
    · rwa [Command.apply, Memes.modify_absent hy]
    · rw [Command.Answered, hy]
      rfl
  | some a =>
    rw [hrows, hy, Option.map_some, Option.toList_some, List.map_singleton, cStr_row,
      viewRows_record y (by have := hsmall a hy; omega), decInt_succInt (hsmall a hy)] at h
    obtain ⟨r', ms', ha, h⟩ := runs_change hd (.count y.text (dec (a.views + 1))) rfl h fun ha => (hr.count ha).1
    obtain ⟨rfl, rfl⟩ := runs_ret.1 h
    refine ⟨ms', rfl, ?_, ?_⟩
    · have := (hr.count ha).2
      rw [Memes.count, Memes.modify, hy, Option.map_some] at this
      rwa [Command.apply, Memes.modify, hy, Option.map_some]
    · rw [Command.Answered, hy]
      rfl

/-- The rows of a query are listed. -/
theorem runs_answerList (hr : Represents ms M) (hsmall : ∀ x a, M x = some a → a.views < 2 ^ 31)
    {keep : Record → Bool} {r : Reply} (hf : Statement.Finds keep ms r ms)
    (h : Runs engine (memeDb ms) (answerList (r.rows.map (·.map cStr))) out db') :
    db' = memeDb ms ∧ ∃ body found, out = .ok (respond 200 (getMimeType ".json") body) ∧
      r.rows.map (·.map cStr) = found.map Record.row ∧ found.Perm (ms.filter keep) ∧ WireFormat body found := by
  obtain ⟨found, hrows, hperm, hfound⟩ := hr.finds hsmall hf
  obtain ⟨body, hbody, hwire⟩ := answerList_ok hfound
  rw [hrows, hbody] at h
  obtain ⟨rfl, rfl⟩ := runs_ret.1 h
  exact ⟨rfl, body, found, rfl, hrows, hperm, hwire⟩

/-- The handler reaches its command with the table unchanged. -/
theorem runs_command (hd : Documented like engine) (i : Input) (h : Runs engine (memeDb ms) (serve i.2.text i.1) out db') :
    Runs engine (memeDb ms) ((command i.1).prog i.2) out db' := by
  rw [serve_eq] at h
  exact runs_idle hd .creating id (runs_idle hd .opening id h)

/-- One request does to the table what its command does to the map, and is answered by it. -/
theorem runs_serve (hd : Documented like engine) (hr : Represents ms M) (i : Input) (hfresh : M i.2 = none)
    (hsmall : ∀ x a, M x = some a → a.views < 2 ^ 31 - 1) (h : Runs engine (memeDb ms) (serve i.2.text i.1) out db') :
    ∃ ms', db' = memeDb ms' ∧ Represents ms' ((command i.1).apply i.2 M) ∧ (command i.1).Answered i.2 M out := by
  have hsmall' : ∀ x a, M x = some a → a.views < 2 ^ 31 := fun x a hx => by have := hsmall x a hx; omega
  have h := runs_command hd i h
  cases hc : command i.1 with
  | create e =>
    rw [hc] at h
    obtain ⟨r, ms', ha, h⟩ := runs_change hd (.insert i.2.text e.memeTemplate e.topCaption e.bottomCaption) rfl h
      fun ha => (hr.insert hfresh ha).1
    obtain ⟨rfl, rfl⟩ := runs_ret.1 h
    exact ⟨ms', rfl, (hr.insert hfresh ha).2, rfl⟩
  | update y e =>
    rw [hc] at h
    obtain ⟨r, ms', ha, h⟩ := runs_change hd (.edit y.text e.memeTemplate e.topCaption e.bottomCaption) rfl h
      fun ha => (hr.edit ha).1
    obtain ⟨rfl, rfl⟩ := runs_ret.1 h
    exact ⟨ms', rfl, (hr.edit ha).2, rfl⟩
  | delete y =>
    rw [hc] at h
    obtain ⟨r, ms', ha, h⟩ := runs_change hd (.remove y.text) rfl h fun ha => (hr.remove ha).1
    obtain ⟨rfl, rfl⟩ := runs_ret.1 h
    exact ⟨ms', rfl, (hr.remove ha).2, rfl⟩
  | view y =>
    rw [hc] at h
    exact runs_view hd hr i.2 y (hsmall y) h
  | missing s hs =>
    rw [hc] at h
    obtain ⟨r, hf, h⟩ := runs_collect hd (.find s) rfl h _ id
    rw [hr.find_none hs hf] at h
    obtain ⟨rfl, rfl⟩ := runs_ret.1 h
    exact ⟨ms, rfl, hr, rfl⟩
  | list =>
    rw [hc] at h
    obtain ⟨r, hf, h⟩ := runs_collect hd .all rfl h _ id
    obtain ⟨rfl, body, -, rfl, -⟩ := runs_answerList hr hsmall' hf h
    exact ⟨ms, rfl, hr, body, rfl⟩
  | search q =>
    rw [hc] at h
    obtain ⟨r, hf, h⟩ := runs_collect hd (.search q) rfl h _ id
    obtain ⟨rfl, body, -, rfl, -⟩ := runs_answerList hr hsmall' hf h
    exact ⟨ms, rfl, hr, body, rfl⟩
  | settled answer =>
    rw [hc] at h
    have hs := command_settles hc
    cases answer with
    | ok resp =>
      obtain ⟨rfl, rfl⟩ := runs_ret.1 h
      exact ⟨ms, rfl, hr, rfl, hs⟩
    | error e =>
      obtain ⟨rfl, rfl⟩ := runs_throw.1 h
      exact ⟨ms, rfl, hr, rfl, hs⟩

end Alone

/-! ## Runs of requests -/

/-- What is assumed of a run: UUIDs are fresh, and no meme is viewed `2^31 - 1` times. -/
def Ordinary (inputs : List Input) : Prop :=
  (inputs.map Prod.snd).Nodup ∧ ∀ is, is <+: inputs → ∀ x a, mapAfter is x = some a → a.views < 2 ^ 31 - 1

/-- After any requests, given one at a time, the table holds the memes of the
map that their commands make, and each was answered by the map that it met. -/
theorem serves_refine {like : Str → Str → Bool} {engine : Db → Call → Reply → Db → Prop}
    (hd : Documented like engine) {inputs : List Input} {outs : List (Except StdException Response)} {db : Db}
    (h : RunsEach engine (fun i : Input => serve i.2.text i.1) (memeDb []) inputs outs db) (ho : Ordinary inputs) :
    (∃ ms, db = memeDb ms ∧ Represents ms (mapAfter inputs)) ∧ outs.length = inputs.length ∧
      ∀ (k : Nat) (i : Input) out, inputs[k]? = some i → outs[k]? = some out →
        (command i.1).Answered i.2 (mapAfter (inputs.take k)) out := by
  refine h.simulates (fun db M => ∃ ms, db = memeDb ms ∧ Represents ms M)
    (fun M i out => (command i.1).Answered i.2 M out) (P := Ordinary) ?_ ⟨[], rfl, .nil⟩ ?_ ho
  · rintro is i ⟨hnodup, hviews⟩
    rw [List.map_append] at hnodup
    exact ⟨hnodup.of_append_left, fun js hjs => hviews js (hjs.trans (List.prefix_append _ _))⟩
  · rintro is i _ out db' ⟨hnodup, hviews⟩ ⟨ms, rfl, hr⟩ hrun
    have hfresh : mapAfter is i.2 = none := by
      rw [Option.eq_none_iff_forall_ne_some]
      intro a ha
      rw [List.map_append, List.nodup_append] at hnodup
      exact hnodup.2.2 _ (mapAfter_some is ha).1 _ (List.mem_singleton_self _) rfl
    obtain ⟨ms', rfl, hr', ha⟩ := runs_serve hd hr i hfresh (hviews is (List.prefix_append _ _)) hrun
    exact ⟨⟨ms', rfl, hr'⟩, ha⟩

/-- Fresh UUIDs are all it takes for fewer than `2^31 - 1` requests. -/
theorem ordinary_of_length {inputs : List Input} (h : (inputs.map Prod.snd).Nodup) (hlen : inputs.length < 2 ^ 31 - 1) :
    Ordinary inputs := by
  refine ⟨h, fun is his x a ha => ?_⟩
  have h1 := (mapAfter_some is ha).2
  have h2 := his.length_le
  omega

/-! ## A sample -/

/-- A request as it arrives. -/
def ask (method uri body : Str) : Request :=
  parseRequest (fun _ s => s) (requestText method uri [("Host", "localhost")] body)

def sampleId : MemeId := ⟨"01234567-89ab-cdef-0123-456789abcdef", by decide +kernel⟩

def creation : Input := (ask "POST" "/memes" "memeSelect=a.jpg&topCaption=b+c&bottomCaption=d%21", sampleId)

/-- A view, with the UUID that it would draw. -/
def viewing (uuid : MemeId) : Input := (ask "GET" "/memes/01234567-89ab-cdef-0123-456789abcdef" [], uuid)

def firstId : MemeId := ⟨"11111111-89ab-cdef-0123-456789abcdef", by decide +kernel⟩

def secondId : MemeId := ⟨"22222222-89ab-cdef-0123-456789abcdef", by decide +kernel⟩

theorem serves_refine_sample :
    (∃ ms, (evalEach (textEngine fun _ _ => true) (fun i : Input => serve i.2.text i.1)
        [creation, viewing firstId, viewing secondId] (memeDb [])).2 = memeDb ms ∧
      Represents ms (mapAfter [creation, viewing firstId, viewing secondId])) ∧
    (mapAfter [creation, viewing firstId, viewing secondId] sampleId).map Entry.views = some 2 :=
  ⟨(serves_refine (documented_computes _) (runsEach_eval (fun _ _ => rfl) _ _ _)
    (ordinary_of_length (by decide) (by decide))).1, by decide +kernel⟩

end GittyUp.Meme
