import GittyUp.Meme.Map
/-!
# What a request asks for

Every request, sorted by what it asks of the store before anything is called:
`serve_eq` says that the handler then does just that. `Composable.serve` is the
rule for what each of its statements keeps.
-/
open Lib Lib.Sql GittyUp.Http GittyUp.SqlLib

namespace GittyUp.Meme

/-! ## Accepted bodies -/

def Texts.params (e : Texts) : List Str := [e.memeTemplate, e.topCaption, e.bottomCaption]

theorem bodyCheck_params {body : Str} {params : List Str} (h : bodyCheck body = .ok (some params)) :
    Caption (params.getD 0 []) ∧ Caption (params.getD 1 []) ∧ Caption (params.getD 2 []) := by
  obtain he | he | ⟨t, p, b, he, ht, hp, hb⟩ := bodyCheck_spec body
  · cases he.symm.trans h
  · cases he.symm.trans h
  · cases he.symm.trans h
    exact ⟨ht, hp, hb⟩

/-- `body_check`, with what it knows of the parameters. -/
def readTexts (body : Str) : Except StdException (Option Texts) :=
  match h : bodyCheck body with
  | .error e => .error e
  | .ok none => .ok none
  | .ok (some params) => .ok (some ⟨params.getD 0 [], params.getD 1 [], params.getD 2 [], bodyCheck_params h⟩)

theorem readTexts_cases (body : Str) :
    (readTexts body = .error decodeFailure ∧ bodyCheck body = .error decodeFailure) ∨
    (readTexts body = .ok none ∧ bodyCheck body = .ok none) ∨
    ∃ e : Texts, readTexts body = .ok (some e) ∧ bodyCheck body = .ok (some e.params) := by
  obtain he | he | ⟨t, p, b, he, ht, hp, hb⟩ := bodyCheck_spec body
  · refine .inl ⟨?_, he⟩
    unfold readTexts
    split <;> simp_all
  · refine .inr (.inl ⟨?_, he⟩)
    unfold readTexts
    split <;> simp_all
  · refine .inr (.inr ⟨⟨t, p, b, ht, hp, hb⟩, ?_, he⟩)
    unfold readTexts
    split
    · simp_all
    · simp_all
    · rename_i params h
      cases he.symm.trans h
      rfl

/-! ## Commands -/

inductive Command
  | create (e : Texts)
  | update (x : MemeId) (e : Texts)
  | delete (x : MemeId)
  | view (x : MemeId)
  /-- A `GET` for what is no id. -/
  | missing (s : Str) (h : checkId (cStr s) = false)
  | list
  | search (q : Str)
  /-- Decided without a look at the table. -/
  | settled (answer : Except StdException Response)

def refusal (text : Str) : Response := respond 400 "text/plain" text

def failure (text : Str) : Response := respond 500 "text/plain" text

def createCommand (body : Str) : Command :=
  match readTexts body with
  | .error e => .settled (.error e)
  | .ok none => .settled (.ok (refusal "The provided meme creation request is invalid!\n"))
  | .ok (some e) => .create e

def updateCommand (id body : Str) : Command :=
  match readTexts body with
  | .error e => .settled (.error e)
  | .ok none => .settled (.ok (refusal "The provided meme update request is invalid!\n"))
  | .ok (some e) =>
    if h : checkId id then .update ⟨id, h⟩ e
    else .settled (.ok (refusal "The provided meme update request is invalid!\n"))

def deleteCommand (id : Str) : Command :=
  if h : checkId id then .delete ⟨id, h⟩
  else .settled (.ok (refusal "The provided meme delete request is invalid!\n"))

/-- The pages, the lists, and else the meme with this id. -/
def getCommand (check : Str) : Command :=
  if check = str "create" ∨ check = str "create/" then .settled (.ok (redirectRequest "create"))
  else if check = str "view" ∨ check = str "view/" then .settled (.ok (redirectRequest "list"))
  else if check.length > 7 ∧ check.take 7 = str "manage/" then .settled (.ok (redirectRequest check))
  else if check.length > 5 ∧ check.take 5 = str "view/" then .settled (.ok (redirectRequest (check.drop 5)))
  else if check = [] ∨ check = str "/" then .list
  else if check.length > 7 ∧ check.take 7 = str "search/" then
    match uriDecode (check.drop 7) with
    | .error e => .settled (.error e)
    | .ok q => .search q
  else if h : checkId (cStr check) then .view ⟨cStr check, h⟩
  else .missing check (Bool.eq_false_iff.2 h)

def command (req : Request) : Command :=
  if req.method = str "POST" then createCommand req.requestBody
  else if req.method = str "PUT" then updateCommand (checkUri req.uri) req.requestBody
  else if req.method = str "DELETE" then deleteCommand (checkUri req.uri)
  else if req.method = str "GET" then getCommand (checkUri req.uri)
  else .settled (.ok invalidMethod)

theorem getCommand_search {query : Str} (hq : query ≠ []) : getCommand (str "search/" ++ query) =
    match uriDecode query with
    | .error e => .settled (.error e)
    | .ok q => .search q := by
  have htake : (str "search/" ++ query).take 7 = str "search/" := List.take_left' rfl
  have htake' : (str "search/" ++ query).take 5 = str "searc" := by
    have := congrArg (List.take 5) htake
    rwa [List.take_take] at this
  have hdrop : (str "search/" ++ query).drop 7 = query := List.drop_left' rfl
  have hlen : (str "search/" ++ query).length > 7 := by
    have := List.length_pos_of_ne_nil hq
    rw [List.length_append, show (str "search/").length = 7 from rfl]
    omega
  have hne : ∀ w : Str, w.take 7 ≠ str "search/" → str "search/" ++ query ≠ w := by
    rintro _ hw rfl
    exact hw htake
  have hpage : ∀ w w' : Str, w.take 7 ≠ str "search/" → w'.take 7 ≠ str "search/" →
      ¬ (str "search/" ++ query = w ∨ str "search/" ++ query = w') := fun w w' h h' =>
    not_or.2 ⟨hne w h, hne w' h'⟩
  have hmanage : str "search/" ≠ str "manage/" := by decide
  have hview : str "searc" ≠ str "view/" := by decide
  unfold getCommand
  simp only [if_neg (hpage (str "create") (str "create/") (by decide) (by decide)),
    if_neg (hpage (str "view") (str "view/") (by decide) (by decide)),
    if_neg (hpage [] (str "/") (by decide) (by decide)), htake, htake', hdrop, hlen, hmanage, hview, and_false, and_self,
    if_false, if_true]

theorem command_get {req : Request} (hget : req.method = str "GET") : command req = getCommand (checkUri req.uri) := by
  unfold command
  rw [hget, if_neg (by decide), if_neg (by decide), if_neg (by decide), if_pos rfl]

def answerId (code : Nat) (x : MemeId) : Response := respond code "application/json" (idJson x.text)

def Command.prog (uuid : MemeId) : Command → SqlProg Response
  | create e => do
    if ← change Statement.insertSql [uuid.text, e.memeTemplate, e.topCaption, e.bottomCaption, "0"] then
      return answerId 201 uuid
    else return failure "An error occurred while trying to create the provided meme!\n"
  | update x e => do
    if ← change Statement.editSql [e.memeTemplate, e.topCaption, e.bottomCaption, x.text] then return answerId 200 x
    else return failure "An error occurred while trying to update the provided meme!\n"
  | delete x => do
    if ← change Statement.removeSql [x.text] then return answerId 200 x
    else return failure "An error occurred while trying to delete the provided meme!\n"
  | view x => getMemeById x.text
  | missing s _ => getMemeById s
  | list => memeList
  | search q => do answerList (← collect Statement.searchSql [q, q])
  | settled answer => .ofExcept answer

/-- A meme as `get_meme_by_id` answers it. -/
def shown (a : Entry) : Response :=
  respond 200 (getMimeType ".json") (memeJson a.memeTemplate a.topCaption a.bottomCaption)

/-! ## Settled requests -/

/-- The answers that need no table: a failure to decode, a redirection or a refusal. -/
def Settles (answer : Except StdException Response) : Prop :=
  answer = .error decodeFailure ∨
    ∃ resp, answer = .ok resp ∧ resp.statusCode ∈ [303, 400, 405] ∧ resp.responseBody ≠ corrupted.responseBody

theorem settles_redirect (location : Str) : Settles (.ok (redirectRequest location)) := by
  refine .inr ⟨_, rfl, ?_⟩
  unfold redirectRequest
  split_ifs
  · exact ⟨List.mem_cons_self, by decide⟩
  · exact ⟨List.mem_cons_self, by decide⟩
  · exact ⟨List.mem_cons_self, by simp [redirectTo, corrupted, respond, str]⟩
  · exact ⟨List.mem_cons_self, by simp [redirectTo, corrupted, respond, str]⟩

theorem settles_create {body : Str} {answer : Except StdException Response}
    (h : createCommand body = .settled answer) : Settles answer := by
  unfold createCommand at h
  obtain ⟨hr, -⟩ | ⟨hr, -⟩ | ⟨e, hr, -⟩ := readTexts_cases body
  all_goals
    rw [hr] at h
    cases h
  · exact .inl rfl
  · exact .inr ⟨_, rfl, by decide, by decide⟩

theorem settles_update {id body : Str} {answer : Except StdException Response}
    (h : updateCommand id body = .settled answer) : Settles answer := by
  unfold updateCommand at h
  obtain ⟨hr, -⟩ | ⟨hr, -⟩ | ⟨e, hr, -⟩ := readTexts_cases body
  · rw [hr] at h
    cases h
    exact .inl rfl
  · rw [hr] at h
    cases h
    exact .inr ⟨_, rfl, by decide, by decide⟩
  · rw [hr] at h
    simp only at h
    split_ifs at h
    cases h
    exact .inr ⟨_, rfl, by decide, by decide⟩

theorem settles_delete {id : Str} {answer : Except StdException Response}
    (h : deleteCommand id = .settled answer) : Settles answer := by
  unfold deleteCommand at h
  split_ifs at h
  cases h
  exact .inr ⟨_, rfl, by decide, by decide⟩

theorem settles_get {check : Str} {answer : Except StdException Response}
    (h : getCommand check = .settled answer) : Settles answer := by
  unfold getCommand at h
  split_ifs at h
  · cases h
    exact settles_redirect _
  · cases h
    exact settles_redirect _
  · cases h
    exact settles_redirect _
  · cases h
    exact settles_redirect _
  · cases hd : uriDecode (check.drop 7) with
    | error e =>
      rw [hd] at h
      cases h
      rw [uriDecode_error hd]
      exact .inl rfl
    | ok q =>
      rw [hd] at h
      cases h

theorem command_settles {req : Request} {answer : Except StdException Response} (h : command req = .settled answer) :
    Settles answer := by
  unfold command at h
  split_ifs at h
  · exact settles_create h
  · exact settles_update h
  · exact settles_delete h
  · exact settles_get h
  · cases h
    exact .inr ⟨_, rfl, by decide, by decide⟩

/-! ## The handler does what the command says -/

/-- The row of a meme is counted and shown. -/
theorem viewRows_record (x : MemeId) {a : Entry} (ha : a.views < 2 ^ 31) :
    viewRows [(record x a).row] = do
      let _ ← change Statement.countSql [decInt (succInt a.views), x.text]
      return shown a := by
  have hid : entry (record x a).row 0 = x.text := rfl
  have htemplate : entry (record x a).row 1 = a.memeTemplate := rfl
  have htop : entry (record x a).row 2 = a.topCaption := rfl
  have hbottom : entry (record x a).row 3 = a.bottomCaption := rfl
  have hviews : stoi (entry (record x a).row 4) = .ok (a.views : Int) := stoi_dec ha
  obtain ⟨⟨ht, -⟩, ⟨hp, -⟩, hb, -⟩ := a.valid
  unfold viewRows updateRecord Statement.countSql shown
  simp only [hid, htemplate, htop, hbottom, hviews, ht, hp, hb, or_self, if_false, Prog.ofExcept, Prog.ret_bind,
    List.map_cons, List.map_nil, List.cons_append, List.nil_append]

theorem decInt_succInt {n : Nat} (h : n < 2 ^ 31 - 1) : decInt (succInt n) = dec (n + 1) := by
  have : succInt n = ((n + 1 : Nat) : Int) := by
    unfold succInt
    rw [Int.bmod_eq_of_le] <;> omega
  rw [this]
  rfl

theorem cStr_cStr (s : Str) : cStr (cStr s) = cStr s := by
  unfold cStr
  rw [List.takeWhile_takeWhile]
  simp

theorem getMemeById_cStr (id : Str) : getMemeById (cStr id) = getMemeById id := by
  unfold getMemeById selectRecord
  simp only [List.map_cons, List.map_nil]
  unfold collect
  have : bindTexts [cStr id] = bindTexts [id] := by simp [bindTexts, cStr_cStr]
  rw [this]

theorem handleGet_eq (uuid : MemeId) (check : Str) : handleGet check = (getCommand check).prog uuid := by
  unfold handleGet getCommand
  split_ifs with h1 h2 h3 h4 h5 h6 h7
  · rfl
  · rfl
  · rfl
  · rfl
  · rfl
  · unfold memeSearch
    cases uriDecode (check.drop 7) with
    | error e => rfl
    | ok q => rfl
  · exact (getMemeById_cStr check).symm
  · rfl

theorem handleRequest_eq (uuid : MemeId) (req : Request) :
    handleRequest uuid.text req = (command req).prog uuid := by
  unfold handleRequest command
  split_ifs with h1 h2 h3 h4
  · unfold createMeme createCommand
    obtain ⟨hr, hb⟩ | ⟨hr, hb⟩ | ⟨e, hr, hb⟩ := readTexts_cases req.requestBody
    all_goals
      rw [hr, hb]
      rfl
  · unfold updateMeme updateCommand
    obtain ⟨hr, hb⟩ | ⟨hr, hb⟩ | ⟨e, hr, hb⟩ := readTexts_cases req.requestBody
    · rw [hr, hb]
      rfl
    · rw [hr, hb]
      by_cases h : checkId (checkUri req.uri)
      · simp only [h]
        rfl
      · simp only [h]
        rfl
    · rw [hr, hb]
      by_cases h : checkId (checkUri req.uri)
      · simp only [h, dif_pos]
        rfl
      · simp only [h]
        rfl
  · unfold deleteMeme deleteCommand
    split_ifs with h
    · rfl
    · rfl
  · exact handleGet_eq uuid _
  · rfl

theorem serve_eq (uuid : MemeId) (req : Request) :
    serve uuid.text req =
      .call Statement.opening.call fun _ => .call Statement.creating.call fun _ => (command req).prog uuid := by
  rw [← handleRequest_eq]
  rfl

/-! ## What the programs are composed of -/

/-- A statement that inserts no other id than a UUID. -/
def Statement.Sound : Statement → Prop
  | insert id _ _ _ => checkId (cStr id) = true
  | _ => True

/-- A property of programs that those of the statements have and that `bind` keeps. -/
structure Composable (C : ∀ {α : Type}, SqlProg α → Prop) : Prop where
  ofExcept {α : Type} (x : Except StdException α) : C (.ofExcept x : SqlProg α)
  bind {α β : Type} {p : SqlProg α} {f : α → SqlProg β} : C p → (∀ a, C (f a)) → C (p >>= f)
  opening : C (perform Statement.opening.call)
  creating : C (perform Statement.creating.call)
  runOnce {α : Type} {sql : Str} {values : List Str} (st : Statement) (k : Reply → α) :
    st.call = .run sql (bindTexts values) → st.Sound → C (runOnce sql values k)

namespace Composable
variable {C : ∀ {α : Type}, SqlProg α → Prop}

theorem change (h : Composable C) {sql : Str} {values : List Str} (st : Statement)
    (hst : st.call = .run sql (bindTexts values)) (hs : st.Sound) : C (change sql values) := by
  rw [change_eq]
  exact h.runOnce st Reply.done hst hs

theorem collect (h : Composable C) {sql : Str} {values : List Str} (st : Statement)
    (hst : st.call = .run sql (bindTexts values)) (hs : st.Sound) : C (collect sql values) := by
  rw [collect_eq]
  exact h.runOnce st _ hst hs

theorem answerList (h : Composable C) (result : List Row) : C (answerList result) :=
  h.bind (h.ofExcept _) fun rows => h.ofExcept (.ok (respond 200 (getMimeType ".json") (listOutput rows)))

theorem getMemeById (h : Composable C) (id : Str) : C (getMemeById id) := by
  refine h.bind (h.collect (.find id) rfl trivial) fun result => ?_
  unfold viewRows
  split
  · rename_i row
    refine h.bind (h.ofExcept _) fun n => h.bind ?_ fun _ => ?_
    · exact h.change (.count (entry row 0) (decInt (succInt n))) rfl trivial
    · split
      · exact h.ofExcept (.ok corrupted)
      · exact h.ofExcept (.ok (respond 200 _ _))
  · exact h.ofExcept (.ok notFound)

/-- What a change answers. -/
theorem answered (h : Composable C) {p : SqlProg Bool} (hp : C p) (resp resp' : Response) :
    C (do if ← p then return resp else return resp') := by
  refine h.bind hp fun done => ?_
  split
  · exact h.ofExcept (.ok resp)
  · exact h.ofExcept (.ok resp')

/-- Every request makes no other calls than those of the handler's statements. -/
theorem serve (h : Composable C) (uuid : MemeId) (req : Request) : C (serve uuid.text req) := by
  have hcommand : C ((command req).prog uuid) := by
    cases command req with
    | create e =>
      refine h.answered (h.change (.insert uuid.text e.memeTemplate e.topCaption e.bottomCaption) rfl ?_) _ _
      show checkId (cStr uuid.text) = true
      rw [uuid.cStr_text]
      exact uuid.valid
    | update x e => exact h.answered (h.change (.edit x.text e.memeTemplate e.topCaption e.bottomCaption) rfl trivial) _ _
    | delete x => exact h.answered (h.change (.remove x.text) rfl trivial) _ _
    | view x => exact h.getMemeById x.text
    | missing s _ => exact h.getMemeById s
    | list => exact h.bind (h.collect .all rfl trivial) h.answerList
    | search q => exact h.bind (h.collect (.search q) rfl trivial) h.answerList
    | settled answer => exact h.ofExcept answer
  rw [serve_eq]
  exact h.bind h.opening fun _ => h.bind h.creating fun _ => hcommand

end Composable

end GittyUp.Meme
