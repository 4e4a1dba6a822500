import GittyUp.Client
import GittyUp.Meme.Linear
import GittyUp.Meme.Search
import GittyUp.Meme.Views
import GittyUp.Recording
/-!
# The pages

The scripts of `web/memes`: what `create.js`, `manage.js`, `view.js` and `list.js`
send, and what they show of the answers. `pages_linearizable` is about the whole
way: the bytes that a page sends, the router, the statements of the handler among
those of others, and the bytes that come back.
-/
open Lib Lib.Sql GittyUp.Http GittyUp.Config GittyUp.Router GittyUp.Handlers GittyUp.SqlLib GittyUp.Client

namespace GittyUp.Meme

/-! ## What is sent -/

/-- The values of the options of `memeSelect`. -/
def options : List Str := ["simply.jpg", "grumpy.jpg", "ermahgerd.jpg"]

/-- A form that is filled in, with captions that the server takes as they are: of
letters, digits, underscores, spaces and `.,?!`, and not empty. Other captions are left
out: `body_check` may take a part of one. -/
structure Form where
  memeSelect : Str
  topCaption : Str
  bottomCaption : Str
  selected : memeSelect ∈ options
  captions : Caption topCaption ∧ Caption bottomCaption

/-- What a user does on the pages. -/
inductive UserAction
  /-- `postMemeData` of `create.js`. -/
  | create (form : Form)
  /-- `putMemeData` of `manage.js`. -/
  | change (id : MemeId) (form : Form)
  /-- `deleteMemeData`. -/
  | delete (id : MemeId)
  /-- `getMemeData` of `view.js` and `manage.js`. -/
  | view (id : MemeId)
  /-- `getMemeList` of `list.js`, without a query and with one. -/
  | list
  | search (q : Str)

/-- The method, the target and the body of the request. The query of a search is
taken from the address of the page, where a form has put it. -/
inductive UserAction.Asks : UserAction → Str → Str → Str → Prop
  | create {form body} : FormBody form.memeSelect form.topCaption form.bottomCaption body →
      Asks (.create form) (str "POST") (str "/memes/") body
  | change {id form body} : FormBody form.memeSelect form.topCaption form.bottomCaption body →
      Asks (.change id form) (str "PUT") (str "/memes/" ++ id.text) body
  | delete {id} : Asks (.delete id) (str "DELETE") (str "/memes/" ++ id.text) []
  | view {id} : Asks (.view id) (str "GET") (str "/memes/" ++ id.text) []
  | list : Asks .list (str "GET") (str "/memes") []
  | search {q query} : q ≠ [] → Encodes q query → Asks (.search q) (str "GET") (str "/memes/search/" ++ query) []

/-- A form without its `select`. -/
def captionsText (p b : Str) : Str :=
  str "topCaption" ++ equals :: (p ++ (('&' : Char) : Byte) :: (str "bottomCaption" ++ equals :: b))

/-- The bytes that arrive, with the headers that the browser adds, if one read holds them all. -/
def UserAction.Sends (a : UserAction) (data : Str) : Prop :=
  ∃ method target headers body, a.Asks method target body ∧ data = requestText method target headers body ∧
    data.length ≤ maxLength

def Form.texts (form : Form) : Texts where
  memeTemplate := form.memeSelect
  topCaption := form.topCaption
  bottomCaption := form.bottomCaption
  valid := ⟨by
    have h := form.selected
    simp only [options, List.mem_cons, List.not_mem_nil, or_false] at h
    rcases h with h | h | h
    all_goals
      rw [h]
      exact ⟨by decide, by decide⟩, form.captions⟩

/-- The command that is meant. -/
def UserAction.command : UserAction → Command
  | create form => .create form.texts
  | change id form => .update id form.texts
  | delete id => .delete id
  | view id => .view id
  | list => .list
  | search q => .search q

/-! ## What is shown -/

/-- What a page shows. A member that is not there is shown as `undefined`. -/
inductive Seen
  /-- The link to the new meme. -/
  | made (id : Option Str)
  | changed
  | deleted
  | meme (memeSelect topCaption bottomCaption : Option Str)
  /-- The parts of each entry. -/
  | listed (entries : List (List Str))
  | failed
deriving DecidableEq

def member (name : Str) : Data → Option Str
  | .object members => members.lookup name
  | _ => none

/-- What `$.each` goes through. -/
def values : Data → List Str
  | .object members => members.map Prod.snd
  | .array elements => elements
  | .text _ => []

/-- What `success` makes of its data. -/
def UserAction.shows (data : Data) : UserAction → Seen
  | create _ => .made (member "id" data)
  | change _ _ => .changed
  | delete _ => .deleted
  | view _ => .meme (member "memeSelect" data) (member "topCaption" data) (member "bottomCaption" data)
  | list | search _ => .listed ((values data).map (·.splitOn colon))

/-- The page when the answer has come. -/
def UserAction.sees (bytes : Str) (a : UserAction) : Seen := ((ajax bytes).map a.shows).getD .failed

/-- What an encoder leaves can stand in a target. -/
theorem encodesByte_target {c : Byte} {e : Str} (h : EncodesByte c e) : ∀ d ∈ e, notEol d ∧ d ≠ '?' := by
  have hkept : ∀ d : Byte, isUnreserved d = true ∨ d ∈ str "!*'()" → notEol d ∧ d ≠ '?' := forall_byte (by decide +kernel)
  have hhex : ∀ d : Byte, isHexDigit d → notEol d ∧ d ≠ '?' := forall_byte (by decide +kernel)
  cases h with
  | kept hk =>
    intro d hd
    rw [List.mem_singleton.1 hd]
    exact hkept _ hk
  | plus => decide
  | escaped _ hh hl _ =>
    intro d hd
    simp only [List.mem_cons, List.not_mem_nil, or_false] at hd
    rcases hd with rfl | rfl | rfl
    · decide
    · exact hhex _ hh
    · exact hhex _ hl

theorem encodes_target {v e : Str} (h : Encodes v e) : ∀ d ∈ e, notEol d ∧ d ≠ '?' := by
  induction h with
  | nil => simp
  | cons hb _ ih =>
    intro d hd
    rcases List.mem_append.1 hd with hd | hd
    · exact encodesByte_target hb d hd
    · exact ih d hd

/-- The captions of a form, and then the whole form. -/
theorem captionsText_line {p b ep eb : Str} (hp : Encodes p ep) (hb : Encodes b eb) :
    ∀ c ∈ captionsText ep eb, notEol c := by
  intro c hc
  simp only [captionsText, List.mem_append, List.mem_cons] at hc
  rcases hc with hc | rfl | hc | rfl | hc | rfl | hc
  · exact (show ∀ c ∈ str "topCaption", notEol c by decide) c hc
  · decide
  · exact (encodes_target hp c hc).1
  · decide
  · exact (show ∀ c ∈ str "bottomCaption", notEol c by decide) c hc
  · decide
  · exact (encodes_target hb c hc).1

theorem formBody_line {t p b body : Str} (h : FormBody t p b body) : ∀ c ∈ body, notEol c := by
  obtain ⟨et, ep, eb, ht, hp, hb, rfl⟩ := h
  intro c hc
  rw [formText, List.mem_append, List.mem_cons, List.mem_append, List.mem_cons] at hc
  rcases hc with hc | rfl | hc | rfl | hc
  · exact (show ∀ c ∈ str "memeSelect", notEol c by decide) c hc
  · decide
  · exact (encodes_target ht c hc).1
  · decide
  · exact captionsText_line hp hb c hc

theorem MemeId.text_target (x : MemeId) : ∀ c ∈ x.text, notEol c ∧ c ≠ '?' := fun c hc =>
  (show ∀ c : Byte, isHexDigit c = true ∨ c = hyphen → notEol c = true ∧ c ≠ '?' from forall_byte (by decide +kernel)) c
    (checkId_chars x.valid c hc)

/-- An id behind a word that can stand in a target. -/
theorem target_append (word : Str) (hw : ∀ c ∈ word, notEol c ∧ c ≠ '?') (id : MemeId) :
    ∀ c ∈ word ++ id.text, notEol c ∧ c ≠ '?' := fun c hc =>
  (List.mem_append.1 hc).elim (hw c) (id.text_target c)

theorem target_id (id : MemeId) : ∀ c ∈ str "/memes/" ++ id.text, notEol c ∧ c ≠ '?' :=
  target_append (str "/memes/") (by decide) id

theorem UserAction.Asks.plain {a : UserAction} {method target body : Str} (h : a.Asks method target body) :
    Plain method target body := by
  cases h with
  | create hb => exact ⟨⟨by decide, by decide⟩, ⟨by decide, by decide⟩, formBody_line hb⟩
  | @change id form _ hb => exact ⟨⟨by decide, by decide⟩, ⟨by simp [str], target_id id⟩, formBody_line hb⟩
  | @delete id => exact ⟨⟨by decide, by decide⟩, ⟨by simp [str], target_id id⟩, by simp⟩
  | @view id => exact ⟨⟨by decide, by decide⟩, ⟨by simp [str], target_id id⟩, by simp⟩
  | list => exact ⟨⟨by decide, by decide⟩, ⟨by decide, by decide⟩, by simp⟩
  | search _ hq =>
    refine ⟨⟨by decide, by decide⟩, ⟨by simp [str], fun c hc => ?_⟩, by simp⟩
    rcases List.mem_append.1 hc with hc | hc
    · exact (show ∀ c ∈ str "/memes/search/", notEol c ∧ c ≠ '?' by decide) c hc
    · exact encodes_target hq c hc

theorem Form.validFields (form : Form) : ValidFields form.memeSelect form.topCaption form.bottomCaption := by
  refine ⟨?_, form.captions⟩
  have h := form.selected
  simp only [options, List.mem_cons, List.not_mem_nil, or_false] at h
  rcases h with h | h | h
  · exact ⟨str "simply", by decide, by decide, h⟩
  · exact ⟨str "grumpy", by decide, by decide, h⟩
  · exact ⟨str "ermahgerd", by decide, by decide, h⟩

theorem readTexts_form {form : Form} {body : Str} (h : FormBody form.memeSelect form.topCaption form.bottomCaption body) :
    readTexts body = .ok (some form.texts) := by
  have hcheck := bodyCheck_valid form.validFields h
  obtain ⟨-, he⟩ | ⟨-, he⟩ | ⟨e, he, he'⟩ := readTexts_cases body
  · cases hcheck.symm.trans he
  · cases hcheck.symm.trans he
  · rw [he]
    cases e
    cases hcheck.symm.trans he'
    rfl

theorem uriDecode_encodes {v e : Str} (h : Encodes v e) : uriDecode e = .ok v := by
  have := decode_field h (s := []) (t := []) rfl
  rwa [List.append_nil, List.append_nil] at this

theorem encodes_ne_nil {v e : Str} (h : Encodes v e) (hv : v ≠ []) : e ≠ [] := by
  rintro rfl
  cases (uriDecode_encodes h).symm.trans (rfl : uriDecode [] = .ok [])
  exact hv rfl

/-- The server does what is meant. -/
theorem UserAction.Asks.command {a : UserAction} {method target body : Str} (h : a.Asks method target body)
    (stale : Str → Str → Str) (headers : List (Str × Str)) :
    Meme.command (parseRequest stale (requestText method target headers body)) = a.command := by
  obtain ⟨-, hmethod, huri, hbody⟩ := parseRequest_plain stale h.plain headers
  have hcheck : ∀ id : MemeId, checkUri (str "/memes/" ++ id.text) = id.text := fun id =>
    checkUri_memes fun c hc => (id.text_target c hc).1
  unfold Meme.command
  rw [hmethod, huri, hbody]
  cases h with
  | create hb =>
    rw [if_pos rfl]
    unfold createCommand
    rw [readTexts_form hb]
    rfl
  | @change id form _ hb =>
    rw [if_neg (by decide), if_pos rfl, hcheck]
    unfold updateCommand
    rw [readTexts_form hb]
    simp only [id.valid, dif_pos]
    rfl
  | @delete id =>
    rw [if_neg (by decide), if_neg (by decide), if_pos rfl, hcheck]
    unfold deleteCommand
    rw [dif_pos id.valid]
    rfl
  | @view id =>
    rw [if_neg (by decide), if_neg (by decide), if_neg (by decide), if_pos rfl, hcheck]
    exact getCommand_id id.cStr_text
  | list =>
    have hall : checkUri (str "/memes") = [] := by decide
    rw [if_neg (by decide), if_neg (by decide), if_neg (by decide), if_pos rfl, hall]
    rfl
  | @search q query hq he =>
    have hline : ∀ c ∈ str "search/" ++ query, notEol c := by
      intro c hc
      rcases List.mem_append.1 hc with hc | hc
      · exact (show ∀ c ∈ str "search/", notEol c by decide) c hc
      · exact (encodes_target he c hc).1
    have htarget : str "/memes/search/" ++ query = str "/memes/" ++ (str "search/" ++ query) := rfl
    rw [if_neg (by decide), if_neg (by decide), if_neg (by decide), if_pos rfl, htarget, checkUri_memes hline,
      getCommand_search (encodes_ne_nil he hq), uriDecode_encodes he]
    rfl

/-! ## What the pages read -/

theorem dataOf_object {ms : List (Str × Str)} (h : ∀ m ∈ ms, (∀ c ∈ m.1, Json.isPlain c) ∧ ∀ c ∈ m.2, Json.isPlain c) :
    dataOf (getMimeType ".json") (Json.object ms) = some (.object ms) := by
  unfold dataOf
  rw [if_pos (by decide), Json.strings_object, Json.members_object h]
  rfl

theorem plain_of_isField {s : Str} (h : ∀ c ∈ s, isField c = true) : ∀ c ∈ s, Json.isPlain c := by
  intro c hc
  have := h c hc
  simp only [isField, Bool.and_eq_true] at this
  exact this.1

theorem dataOf_idJson (x : MemeId) :
    dataOf (getMimeType ".json") (idJson x.text) = some (.object [(str "id", x.text)]) := by
  have htext : idJson x.text = Json.object [(str "id", x.text)] := by
    simp [idJson, Json.object, Json.member, Json.quoted, str]
  rw [htext]
  refine dataOf_object fun m hm => ?_
  rw [List.mem_singleton.1 hm]
  exact ⟨show ∀ c ∈ str "id", Json.isPlain c by decide,
    plain_of_isField fun c hc => isHexDigit_isField c (checkId_chars x.valid c hc)⟩

/-- A running server that sends what begins with `/memes` to the meme handler. -/
structure Deployment where
  config : NginxConfig
  routeMap : RouteMap
  visit : RouteMap
  calls : List (Str × Str)
  headers : List (Str × Str)
  host : Host
  recorder : Recorder
  /-- The order in which a response's headers are visited. -/
  order : List (Str × Str) → List (Str × Str)
  stale : Str → Str → Str
  routed : ∀ uri, str "/memes" <+: uri → ∃ block, createHandler config routeMap visit uri = some (.meme, block)
  untyped : Untyped calls
  headers_perm : headers.Perm (defaultHeaders calls)
  order_perm : ∀ l, (order l).Perm l

namespace Deployment
variable (d : Deployment)

/-- The site, when the generator yields `uuid`. -/
def site (uuid : MemeId) : Site where
  config := d.config
  routeMap := d.routeMap
  visit := d.visit
  headers := d.headers
  handleRequest := Handlers.handleRequest { d.host with uuid := uuid.text }

/-- What a session writes that has read `data`, by what the handler comes to. -/
def reply (uuid : MemeId) (data : Str) (output : Except StdException Response) : Str :=
  (handleSuccess ⟨fun req => ((d.site uuid).routeRequest d.recorder req output).map Prod.fst, d.order, d.stale,
    d.host.beyond⟩ data).generateResponse d.order

end Deployment

/-- A user's action with the bytes that it sends, and the id that is drawn for it. -/
structure Click where
  action : UserAction
  data : Str
  uuid : MemeId
  sends : action.Sends data

namespace Deployment
variable (d : Deployment)

/-- The request of a click, as the server reads it. -/
def input (c : Click) : Input := (parseRequest d.stale c.data, c.uuid)

/-- What the page shows, by what the handler came to. -/
def shown (c : Click) (output : Except StdException Response) : Except StdException Seen :=
  .ok (c.action.sees (d.reply c.uuid c.data output))

/-- The session of a click. Without a handler the source reads past the end of a
statement, or through a null pointer. -/
def serve (c : Click) : SqlProg Seen :=
  if (parseRequest d.stale c.data).valid then
    match (d.site c.uuid).answer d.recorder (parseRequest d.stale c.data) with
    | some p => p.finish (d.shown c)
    | none => .ret .failed
  else .ofExcept (d.shown c (.error .invalidArgument))

end Deployment

/-- The server takes what is sent for the request that is meant. -/
theorem UserAction.Sends.reads {a : UserAction} {data : Str} (h : a.Sends data) (stale : Str → Str → Str) :
    (parseRequest stale data).valid = true ∧ Meme.command (parseRequest stale data) = a.command ∧
      str "/memes" <+: (parseRequest stale data).uri := by
  obtain ⟨method, target, headers, body, hasks, rfl, -⟩ := h
  obtain ⟨hvalid, -, huri, -⟩ := parseRequest_plain stale hasks.plain headers
  refine ⟨hvalid, hasks.command stale headers, ?_⟩
  rw [huri]
  cases hasks with
  | create => exact ⟨str "/", rfl⟩
  | @change id => exact ⟨str "/" ++ id.text, rfl⟩
  | @delete id => exact ⟨str "/" ++ id.text, rfl⟩
  | @view id => exact ⟨str "/" ++ id.text, rfl⟩
  | list => exact List.prefix_rfl
  | @search q query => exact ⟨str "/search/" ++ query, rfl⟩

/-- What `$.ajax` gets of a response to a valid request. -/
theorem Deployment.ajax_reply (d : Deployment) (uuid : MemeId) {data : Str}
    (hvalid : (parseRequest d.stale data).valid = true) (code : Nat) {contentType : Str} (ht : ∀ x ∈ contentType, notEol x) (body : Str) :
    ajax (d.reply uuid data (.ok (respond code contentType body))) =
      if 200 ≤ code ∧ code < 300 then dataOf contentType body else none := by
  unfold Deployment.reply
  rw [Site.handleSuccess_session _ _ _ _ _ _ _ hvalid, Site.handleSuccess_sent]
  exact ajax_sent d.headers_perm d.order_perm d.untyped code ht body

section Answers
variable (d : Deployment) (c : Click)

theorem Deployment.serve_eq :
    d.serve c = (Meme.serve (d.input c).2.text (d.input c).1).finish (d.shown c) := by
  obtain ⟨hvalid, -, huri⟩ := c.sends.reads d.stale
  obtain ⟨block, hblock⟩ := d.routed _ huri
  unfold Deployment.serve
  have hanswer : (d.site c.uuid).answer d.recorder (parseRequest d.stale c.data) =
      some (Meme.serve c.uuid.text (parseRequest d.stale c.data)) :=
    (d.site c.uuid).answer_created d.recorder _ hblock
  rw [if_pos hvalid, hanswer]
  rfl

variable (a : UserAction)

variable {a} {like : Str → Str → Bool} {C : Contents} {out : Except StdException Response}

end Answers

/-! ## Every run -/

section Clicks
variable {faults : Prop} {like : Str → Str → Bool} {engine : Db → Call → Reply → Db → Prop} {db : Db} {C₀ : Contents}

def memesConfig : NginxConfig := [.block [str "handler", str "meme"] [.line [str "location", str "/memes"]]]

/-- A server with the meme handler only. -/
def memesOnly : Deployment where
  config := memesConfig
  routeMap := [(str "/memes", str "meme")]
  visit := [(str "/memes", str "meme")]
  calls := []
  headers := []
  host := ⟨[], fun _ => none, [], [], fun _ _ => .error .invalidArgument⟩
  recorder := ⟨[], []⟩
  order := id
  stale := fun _ q => q
  routed uri h := by
    have hmatch : longestPrefixMatch [(str "/memes", str "meme")] uri = str "/memes" := by
      rw [longestPrefixMatch_eq]
      exact if_pos ⟨h, by decide⟩
    refine ⟨some [.line [str "location", str "/memes"]], ?_⟩
    unfold createHandler dispatchName
    rw [hmatch]
    rfl
  untyped := untyped_nil
  headers_perm := headers_nil
  order_perm := order_id

end Clicks

/-! ## The manager -/

/-- What `manage.js` sends if its form has been filled with a meme and is not
touched: the value of a `select` without such an option is null, and left out. -/
def Untouched (e : Texts) (body : Str) : Prop :=
  if e.memeTemplate ∈ options then FormBody e.memeTemplate e.topCaption e.bottomCaption body
  else ∃ ep eb, Encodes e.topCaption ep ∧ Encodes e.bottomCaption eb ∧ body = captionsText ep eb

theorem decode_captions {p b ep eb : Str} (hp : Encodes p ep) (hb : Encodes b eb) :
    uriDecode (captionsText ep eb) = .ok (captionsText p b) := by
  have hb := decode_field hb (s := []) (t := []) rfl
  rw [List.append_nil, List.append_nil] at hb
  unfold uriDecode captionsText
  apply decode_plain (by decide)
  apply uriDecodeLoop_plain (by decide) (by decide)
  apply decode_field hp
  apply uriDecodeLoop_plain (by decide) (by decide)
  apply decode_plain (by decide)
  exact uriDecodeLoop_plain (by decide) (by decide) hb

theorem reads_captions {p b : Str} (hp : Caption p) (hb : Caption b) :
    Reads (captionsText p b) [(str "topCaption", p), (str "bottomCaption", b)] := by
  have hamp : ∀ s, StopsAt isCaption ((('&' : Char) : Byte) :: s) := by
    rintro s _ ⟨rfl⟩
    decide
  have hlast : Reads (str "bottomCaption" ++ equals :: (b ++ [])) [(str "bottomCaption", b)] :=
    .pair (by decide) (by decide) hb.1 hb.2 (by rintro c ⟨⟩) .done
  rw [List.append_nil] at hlast
  exact .pair (by decide) (by decide) hp.1 hp.2 (hamp _) (.skip (by decide) hlast)

/-- Captions without a template are refused. -/
theorem readTexts_captions {p b ep eb : Str} (hp : Caption p) (hb : Caption b) (hep : Encodes p ep) (heb : Encodes b eb) :
    readTexts (captionsText ep eb) = .ok none := by
  have hnone := (bodyCheck_reads (decode_captions hep heb) (reads_captions hp hb)).2 (by
    rintro ⟨⟨a, x, y, z, h, -⟩, -⟩
    have hv : value [(str "topCaption", p), (str "bottomCaption", b)] (str "memeSelect") = [] := rfl
    rw [hv] at h
    simp at h)
  obtain ⟨-, he⟩ | ⟨he, -⟩ | ⟨e, -, he⟩ := readTexts_cases (captionsText ep eb)
  · cases hnone.symm.trans he
  · exact he
  · cases hnone.symm.trans he

/-- The server refuses a form without its `select`. -/
theorem command_captions (stale : Str → Str → Str) (x : MemeId) {e : Texts} {ep eb : Str} (hp : Encodes e.topCaption ep)
    (hb : Encodes e.bottomCaption eb) (headers : List (Str × Str)) :
    command (parseRequest stale (requestText (str "PUT") (str "/memes/" ++ x.text) headers (captionsText ep eb))) =
      .settled (.ok (refusal "The provided meme update request is invalid!\n")) := by
  have hplain : Plain (str "PUT") (str "/memes/" ++ x.text) (captionsText ep eb) :=
    ⟨⟨by decide, by decide⟩, ⟨by simp [str], target_id x⟩, captionsText_line hp hb⟩
  obtain ⟨-, hmethod, huri, hread⟩ := parseRequest_plain stale hplain headers
  unfold command
  rw [hmethod, huri, hread, if_neg (by decide), if_pos rfl]
  unfold updateCommand
  rw [readTexts_captions e.valid.2.1 e.valid.2.2 hp hb]

/-- A meme that is sent back by the manager as it was shown stays what it is, if one
read holds the request. The page is told of a success if and only if its `select` has
the template. -/
theorem resubmitted_iff (d : Deployment) {x : MemeId} {e : Texts} {body : Str} (hbody : Untouched e body)
    (headers : List (Str × Str))
    (hfits : (requestText (str "PUT") (str "/memes/" ++ x.text) headers body).length ≤ maxLength)
    {like : Str → Str → Bool} (uuid : MemeId) {C : Contents} (hx : C x = some e) {out : Except StdException Response} :
    let data := (requestText (str "PUT") (str "/memes/" ++ x.text) headers body).take maxLength
    let cmd := command (parseRequest d.stale data)
    cmd.write uuid C = C ∧ (cmd.Answers like uuid C out →
      ((ajax (d.reply uuid data out)).isSome ↔ e.memeTemplate ∈ options)) := by
  rw [List.take_of_length_le hfits]
  intro data cmd
  have hplain : ∀ {b : Str}, (∀ c ∈ b, notEol c) → Plain (str "PUT") (str "/memes/" ++ x.text) b := fun hb =>
    ⟨⟨by decide, by decide⟩, ⟨by simp [str], target_id x⟩, hb⟩
  by_cases ht : e.memeTemplate ∈ options
  · rw [Untouched, if_pos ht] at hbody
    let form : Form := ⟨e.memeTemplate, e.topCaption, e.bottomCaption, ht, e.valid.2⟩
    have hcmd : cmd = .update x e := UserAction.Asks.command (a := .change x form) (.change hbody) d.stale headers
    have hvalid := (parseRequest_plain d.stale (hplain (formBody_line hbody)) headers).1
    rw [hcmd]
    refine ⟨?_, fun h => iff_of_true ?_ ht⟩
    · show Function.update C x ((C x).map fun _ => e) = C
      rw [hx]
      exact Function.update_eq_self_iff.2 hx.symm
    · rw [show out = _ from h, answerId, d.ajax_reply uuid hvalid 200 (by decide), if_pos (by decide),
        show str "application/json" = getMimeType ".json" from rfl, dataOf_idJson]
      rfl
  · rw [Untouched, if_neg ht] at hbody
    obtain ⟨ep, eb, hep, heb, rfl⟩ := hbody
    have hcmd : cmd = .settled (.ok (refusal "The provided meme update request is invalid!\n")) :=
      command_captions d.stale x hep heb headers
    have hvalid := (parseRequest_plain d.stale (hplain (captionsText_line hep heb)) headers).1
    rw [hcmd]
    refine ⟨rfl, fun h => iff_of_false ?_ ht⟩
    rw [show out = _ from h, refusal, d.ajax_reply uuid hvalid 400 (by decide), if_neg (by decide)]
    simp

/-- A meme that was not made on the pages. -/
def foreign : Texts := ⟨"a.jpg", "b", "c", ⟨by decide, by decide⟩, ⟨by decide, by decide⟩, by decide, by decide⟩

/-- What a session reads of what the manager sends of it. -/
def foreignRequest : Str :=
  (requestText (str "PUT") (str "/memes/" ++ sampleId.text) [(str "Host", str "a")] (captionsText "b" "c")).take maxLength

theorem resubmitted_iff_foreign : ∃ out, (command (parseRequest memesOnly.stale foreignRequest)).Answers like
      firstId (Function.update (fun _ => none) sampleId (some foreign)) out ∧
    ajax (memesOnly.reply firstId foreignRequest out) = none := by
  have hb : Encodes foreign.topCaption (str "b") := encodes_kept (by decide)
  have hc : Encodes foreign.bottomCaption (str "c") := encodes_kept (by decide)
  have hbody : Untouched foreign (captionsText "b" "c") := by
    rw [Untouched, if_neg (by decide)]
    exact ⟨_, _, hb, hc, rfl⟩
  have hfits : (requestText (str "PUT") (str "/memes/" ++ sampleId.text) [(str "Host", str "a")]
      (captionsText "b" "c")).length ≤ maxLength := by decide
  have hanswers : (command (parseRequest memesOnly.stale foreignRequest)).Answers like firstId
      (Function.update (fun _ => none) sampleId (some foreign))
      (.ok (refusal "The provided meme update request is invalid!\n")) := by
    rw [foreignRequest, List.take_of_length_le hfits, command_captions memesOnly.stale sampleId hb hc]
    rfl
  have hiff := (resubmitted_iff memesOnly hbody _ hfits firstId
    (Function.update_self sampleId (some foreign) fun _ => none)).2 hanswers
  exact ⟨_, hanswers, Option.not_isSome_iff_eq_none.1 fun hs => absurd (hiff.1 hs) (by decide)⟩

end GittyUp.Meme
