import GittyUp.Meme.Pages
import GittyUp.Meme.Redirects
/-!
# Links

The links that the pages show, and what a browser opens that follows one of them:
the request for the link, the redirection, the request for a page with its query,
and the file that comes back. `links_lead` is about the whole way.
-/
open Lib Lib.Sql GittyUp.Http GittyUp.Config GittyUp.Router GittyUp.Handlers GittyUp.SqlLib GittyUp.Client

namespace GittyUp.Meme

/-! ## The browser -/

def isLocation (header : Str × Str) : Bool := header.1.map toLower = str "location"

/-- Where an answer sends the browser on to. -/
def redirection (bytes : Str) : Option Str := do
  let (code, headers, _) ← decodeResponse bytes
  if code = 303 then (headers.find? isLocation).map Prod.snd else none

/-- A byte of a query that is not escaped. -/
def formByte (c : Byte) : Byte := if c = '+' then ' ' else c

/-- The value of a name or a value in a query. A percent sign without digits stands for itself. -/
def formDecode : Str → Str
  | [] => []
  | [c] => [formByte c]
  | [c, d] => [formByte c, formByte d]
  | c :: h :: l :: s =>
    if c = '%' ∧ isHexDigit h ∧ isHexDigit l then UInt8.ofNat (16 * hexVal h + hexVal l) :: formDecode s
    else formByte c :: formDecode (h :: l :: s)

/-- `URLSearchParams.get` on the query of an address. -/
def searchParam (name address : Str) : Option Str := do
  let (_, query) ← cutAt (str "?") address
  let pairs := (pieces (str "&") query.length query).map fun p => (cutAt (str "=") p).getD (p, [])
  (pairs.map fun p => (formDecode p.1, formDecode p.2)).lookup name

/-! ## The links -/

/-- The links of `create.html`, `create.js`, `list.html`, `list.js` and `manage.js` to the pages. -/
inductive Link
  | create
  | list
  | view (id : MemeId)
  | manage (id : MemeId)

namespace Link

def href : Link → Str
  | create => "/memes/create"
  | list => "/memes/view"
  | view id => str "/memes/view/" ++ id.text
  | manage id => str "/memes/manage/" ++ id.text

/-- The meme that it is about. -/
def id : Link → Option MemeId
  | create | list => none
  | view id | manage id => some id

/-- The name of the page that is meant. -/
def page : Link → Str
  | create => "create"
  | list => "list"
  | view _ => "view"
  | manage _ => "manage"

/-- Where that page is. -/
def path (l : Link) : Str := str "/web/memes/" ++ (l.page ++ str ".html")

/-- What stands behind it. -/
def query (l : Link) : Str := l.id.elim [] fun id => str "?" ++ (str "id=" ++ id.text)

end Link

/-! ## The server -/

/-- A running server that also sends what begins with `/web/memes` to the file
handler, and whose default headers lead nowhere. -/
structure WebSite extends Deployment where
  name : Str
  block : NginxConfig
  pages : ∀ uri, str "/web/memes" <+: uri →
    createHandler config routeMap visit uri = some (.staticFile name, some block)
  unplaced : ∀ call ∈ calls, isLocation call = false

namespace WebSite
variable (w : WebSite)

/-- What comes back for a GET of this target, with the headers that the browser adds. -/
inductive Answers (engine : Db → Call → Reply → Db → Prop) (target : Str) : Str → Prop
  | mk {headers uuid data p output db db'} : data = requestText (str "GET") target headers [] → data.length ≤ maxLength →
      (w.site uuid).answer w.recorder (parseRequest w.stale data) = some p → Runs engine db p output db' →
      Answers engine target (w.reply uuid data output)

/-- A browser that opens a target is redirected so many times, comes to an address, and
reads these bytes there. -/
inductive Opens (engine : Db → Call → Reply → Db → Prop) : Nat → Str → Str → Str → Prop
  | stays {target bytes} : w.Answers engine target bytes → redirection bytes = none → Opens engine 0 target target bytes
  | follows {n target place final bytes bytes'} : w.Answers engine target bytes → redirection bytes = some place →
      Opens engine n place final bytes' → Opens engine (n + 1) target final bytes'

/-- The code and the body for a page. -/
def shows (l : Link) : Nat × Str :=
  match w.host.files (w.host.rootPath ++ getStaticFilePath w.block ++ str "/" ++ l.page ++ str ".html") with
  | none => (404, "The requested file could not be found!\n")
  | some f => (200, f)

end WebSite

/-! ## The query -/

theorem formDecode_kept {s : Str} (h : ∀ c ∈ s, c ≠ '+' ∧ c ≠ '%') : formDecode s = s := by
  have hbyte : ∀ c ∈ s, formByte c = c := fun c hc => if_neg (h c hc).1
  fun_induction formDecode s with
  | case1 => rfl
  | case2 c => rw [hbyte c (by simp)]
  | case3 c d => rw [hbyte c (by simp), hbyte d (by simp)]
  | case4 c h l s hc => exact absurd hc.1 (by simp_all)
  | case5 c _ _ s _ ih => rw [hbyte c (by simp), ih (fun d hd => h d (by simp [hd])) fun d hd => hbyte d (by simp [hd])]

theorem id_chars (x : MemeId) : ∀ c ∈ x.text, c ≠ '+' ∧ c ≠ '%' ∧ c ≠ '&' ∧ c ≠ 'l' ∧ c ≠ 'm' ∧ c ≠ 'r' := fun c hc =>
  (show ∀ c : Byte, isHexDigit c = true ∨ c = hyphen → c ≠ '+' ∧ c ≠ '%' ∧ c ≠ '&' ∧ c ≠ 'l' ∧ c ≠ 'm' ∧ c ≠ 'r' from
    forall_byte (by decide +kernel)) c (checkId_chars x.valid c hc)

theorem searchParam_one {path value : Str} (hp : (('?' : Char) : Byte) ∉ path)
    (hv : ∀ c ∈ value, c ≠ '+' ∧ c ≠ '%' ∧ c ≠ '&') :
    searchParam (str "id") (path ++ (str "?" ++ (str "id=" ++ value))) = some value := by
  have hamp : (('&' : Char) : Byte) ∉ str "id=" ++ value := by
    intro h
    rcases List.mem_append.1 h with h | h
    · exact absurd h (by decide)
    · exact (hv _ h).2.2 rfl
  have hquery : cutAt (str "?") (path ++ (str "?" ++ (str "id=" ++ value))) = some (path, str "id=" ++ value) :=
    cutAt_mem hp _
  have hpairs : pieces (str "&") (str "id=" ++ value).length (str "id=" ++ value) = [str "id=" ++ value] := by
    have hcut : cutAt (str "&") (str "id=" ++ value) = none := cutAt_none hamp
    rw [show (str "id=" ++ value).length = value.length + 2 + 1 by simp [str], pieces, hcut]
  have hpair : cutAt (str "=") (str "id=" ++ value) = some (str "id", value) :=
    cutAt_mem (show (('=' : Char) : Byte) ∉ str "id" by decide) value
  have hname : formDecode (str "id") = str "id" := by decide
  unfold searchParam
  rw [hquery]
  simp only [Option.bind_eq_bind, Option.bind_some, hpairs, List.map_cons, List.map_nil, hpair, Option.getD_some, hname,
    formDecode_kept fun c hc => ⟨(hv c hc).1, (hv c hc).2.1⟩]
  rfl

/-- The page reads the id that its address was made with. -/
theorem searchParam_link (l : Link) : searchParam (str "id") (l.path ++ l.query) = l.id.map MemeId.text := by
  have hid : ∀ x : MemeId, ∀ c ∈ x.text, c ≠ '+' ∧ c ≠ '%' ∧ c ≠ '&' := fun x c hc =>
    ⟨(id_chars x c hc).1, (id_chars x c hc).2.1, (id_chars x c hc).2.2.1⟩
  cases l with
  | create => decide +kernel
  | list => decide +kernel
  | view x => exact searchParam_one (show (('?' : Char) : Byte) ∉ str "/web/memes/view.html" by decide) (hid x)
  | manage x => exact searchParam_one (show (('?' : Char) : Byte) ∉ str "/web/memes/manage.html" by decide) (hid x)

/-! ## The requests -/

theorem requestText_target (target : Str) (headers : List (Str × Str)) : requestText (str "GET") target headers [] =
    targetText (str "GET") target '1' '1' (headers.flatMap headerLine ++ str "\r\n") := by
  simp [requestText, targetText, str]

/-- The query is no part of the URI, whatever the memory behind it holds. -/
theorem parseRequest_asked (stale : Str → Str → Str) {path query : Str} (hp : path ≠ [] ∧ ∀ c ∈ path, notEol c ∧ c ≠ '?')
    (hq : ∀ c ∈ query, notEol c ∧ c ≠ '?') (headers : List (Str × Str)) :
    let req := parseRequest stale (requestText (str "GET") (path ++ (str "?" ++ query)) headers [])
    req.valid = true ∧ req.method = str "GET" ∧ req.uri = path := by
  have hget : str "GET" ≠ [] ∧ ∀ c ∈ str "GET", isWord c := ⟨by decide, by decide⟩
  have hone : isDigit ('1' : Char) := by decide
  have htarget : path ++ (str "?" ++ query) ≠ [] ∧ ∀ c ∈ path ++ (str "?" ++ query), notEol c := by
    refine ⟨by simp [hp.1], fun c hc => ?_⟩
    simp only [List.mem_append] at hc
    rcases hc with hc | hc | hc
    · exact (hp.2 c hc).1
    · exact (show ∀ c ∈ str "?", notEol c by decide) c hc
    · exact (hq c hc).1
  have hstale : (parseQueryString stale (path ++ (str "?" ++ query))).1 =
      (parseQueryString (fun _ q => q) (path ++ (str "?" ++ query))).1 := by
    unfold parseQueryString
    cases queryRe.search (path ++ (str "?" ++ query)) <;> rfl
  have hsplit := parseQueryString_split (fun _ q => q) ⟨hp.1, fun c hc => (hp.2 c hc).1⟩ (fun c hc => (hq c hc).1)
    (fun hc => (hp.2 _ hc).2 rfl) (fun hc => (hq _ hc).2 rfl) rfl
  rw [List.append_assoc] at hsplit
  intro req
  have hreq : Requests (requestText (str "GET") (path ++ (str "?" ++ query)) headers []) := by
    rw [requestText_target]
    exact ⟨_, _, rfl, str "GET", path ++ (str "?" ++ query), '1', '1', rfl, hget, htarget, hone, hone⟩
  obtain ⟨hmethod, huri, -⟩ := parseRequest_target stale (headers.flatMap headerLine ++ str "\r\n") hget htarget hone hone
  rw [← requestText_target] at hmethod huri
  exact ⟨(valid_iff stale _).2 hreq, hmethod, by rw [huri, hstale, hsplit]⟩

/-- What the server reads of the request for a page. -/
theorem page_asked (stale : Str → Str → Str) (l : Link) (headers : List (Str × Str)) :
    let req := parseRequest stale (requestText (str "GET") (l.path ++ l.query) headers [])
    req.valid = true ∧ req.method = str "GET" ∧ req.uri = l.path := by
  have hplain : ∀ {path : Str}, path ≠ [] ∧ (∀ c ∈ path, notEol c ∧ c ≠ '?') →
      let req := parseRequest stale (requestText (str "GET") (path ++ []) headers [])
      req.valid = true ∧ req.method = str "GET" ∧ req.uri = path := by
    intro path hp
    have hplain : Plain (str "GET") path [] := ⟨⟨by decide, by decide⟩, hp, by simp⟩
    obtain ⟨hvalid, hmethod, huri, -⟩ := parseRequest_plain stale hplain headers
    rw [List.append_nil]
    exact ⟨hvalid, hmethod, huri⟩
  have hid := target_append (str "id=") (by decide)
  cases l with
  | create => exact hplain (show str "/web/memes/create.html" ≠ [] ∧ _ by decide)
  | list => exact hplain (show str "/web/memes/list.html" ≠ [] ∧ _ by decide)
  | view x => exact parseRequest_asked stale (show str "/web/memes/view.html" ≠ [] ∧ _ by decide) (hid x) headers
  | manage x => exact parseRequest_asked stale (show str "/web/memes/manage.html" ≠ [] ∧ _ by decide) (hid x) headers

theorem address_line (l : Link) : ∀ c ∈ l.path ++ l.query, notEol c := by
  have hid : ∀ word : Str, (∀ c ∈ word, notEol c) → ∀ x : MemeId, ∀ c ∈ word ++ x.text, notEol c :=
    fun word hw x c hc => (List.mem_append.1 hc).elim (hw c) fun hc => (x.text_target c hc).1
  cases l with
  | create => decide
  | list => decide
  | view x => exact hid (str "/web/memes/view.html?id=") (by decide) x
  | manage x => exact hid (str "/web/memes/manage.html?id=") (by decide) x

/-- The link is redirected to the page, whatever the table holds. -/
theorem href_redirected (l : Link) : Redirected l.href (l.path ++ l.query) := by
  have hne : ∀ x : MemeId, x.text ≠ [] := fun x h => by
    have hlength := x.length_text
    rw [h] at hlength
    cases hlength
  cases l with
  | create => exact (redirected_iff (w := str "create") (by decide) (by rfl) _).2 (by decide)
  | list => exact (redirected_iff (w := str "view") (by decide) (by rfl) _).2 (by decide)
  | view x =>
    refine (redirected_iff (target_append (str "view/") (by decide) x) (getCommand_viewer (hne x)) _).2 ?_
    refine (pageAddress_view_iff x.text).2 ⟨fun h => ?_, fun h => ?_, fun h => ?_⟩
    · exact (id_chars x 'r' (by rw [h]; decide)).2.2.2.2.2 rfl
    · exact (id_chars x 'l' (by rw [h]; decide)).2.2.2.1 rfl
    · exact (id_chars x 'm' (h.subset (by decide))).2.2.2.2.1 rfl
  | manage x =>
    refine (redirected_iff (target_append (str "manage/") (by decide) x) (getCommand_manager (hne x)) _).2 ?_
    exact pageAddress_manage x.text

/-! ## The answers -/

/-- An answer is read back as the session has written it. -/
theorem Deployment.decode_reply (d : Deployment) (uuid : MemeId) {data : Str}
    (hvalid : (parseRequest d.stale data).valid = true) {r : Response} (hr : Bare r) :
    decodeResponse (d.reply uuid data (.ok r)) =
      some (r.statusCode, d.order (sent d.headers (.ok r)).responseHeaders, r.responseBody) := by
  unfold Deployment.reply
  rw [Site.handleSuccess_session _ _ _ _ _ _ _ hvalid, Site.handleSuccess_sent]
  exact decode_bare d.headers_perm d.order_perm d.untyped.plain hr

namespace WebSite
variable (w : WebSite) {engine : Db → Call → Reply → Db → Prop}

theorem redirection_reply (uuid : MemeId) {data : Str} (hvalid : (parseRequest w.stale data).valid = true) {r : Response}
    {place : Str} (hcode : r.statusCode = 303) (hr : r.responseHeaders = [(str "Location", place)])
    (hplace : ∀ c ∈ place, notEol c) : redirection (w.reply uuid data (.ok r)) = some place := by
  have hbare : Bare r := ⟨_, place, .inr rfl, hr, hplace⟩
  have hlocation : ∀ value, isLocation (str "Location", value) = true := fun _ =>
    decide_eq_true (show (str "Location").map toLower = str "location" by decide)
  unfold redirection
  rw [w.decode_reply uuid hvalid hbare]
  simp [hcode, find?_sent w.headers_perm w.order_perm w.unplaced hr hbare hlocation]

/-- A page is where it is. -/
theorem redirection_page (uuid : MemeId) {data : Str} (hvalid : (parseRequest w.stale data).valid = true) {code : Nat}
    (hcode : code ≠ 303) {contentType : Str} (ht : ∀ c ∈ contentType, notEol c) (body : Str) :
    redirection (w.reply uuid data (.ok (respond code contentType body))) = none ∧
      (decodeResponse (w.reply uuid data (.ok (respond code contentType body)))).map (fun a => (a.1, a.2.2)) =
        some (code, body) := by
  have hdecode := w.decode_reply uuid hvalid (bare_respond code ht body)
  constructor
  · unfold redirection
    rw [hdecode]
    exact if_neg hcode
  · rw [hdecode]
    rfl

theorem serveFile_page (l : Link) {req : Request} (hmethod : req.method = str "GET") (huri : req.uri = l.path)
    (uuid : Str) : ∃ contentType, (∀ c ∈ contentType, notEol c) ∧ (w.shows l).1 ≠ 303 ∧
      staticFileResponse { w.host with uuid := uuid } w.block req = respond (w.shows l).1 contentType (w.shows l).2 := by
  have hinfo : parseFileInfo l.path = some (l.page, str ".html") := by
    cases l with
    | create => decide +kernel
    | list => decide +kernel
    | view =>
      show parseFileInfo (str "/web/memes/view.html") = some (str "view", str ".html")
      decide +kernel
    | manage =>
      show parseFileInfo (str "/web/memes/manage.html") = some (str "manage", str ".html")
      decide +kernel
  unfold staticFileResponse serveFile WebSite.shows
  rw [if_pos hmethod, huri, hinfo]
  dsimp only
  cases w.host.files (w.host.rootPath ++ getStaticFilePath w.block ++ str "/" ++ l.page ++ str ".html") with
  | none => exact ⟨str "text/plain", by decide, by decide, rfl⟩
  | some f => exact ⟨_, getMimeType_line _, show 200 ≠ 303 by decide, rfl⟩

theorem href_target (l : Link) : Plain (str "GET") l.href [] ∧ str "/memes" <+: l.href := by
  have hmethod : str "GET" ≠ [] ∧ ∀ c ∈ str "GET", isWord c := ⟨by decide, by decide⟩
  cases l with
  | create => exact ⟨⟨hmethod, show str "/memes/create" ≠ [] ∧ _ by decide, by simp⟩, ⟨str "/create", rfl⟩⟩
  | list => exact ⟨⟨hmethod, show str "/memes/view" ≠ [] ∧ _ by decide, by simp⟩, ⟨str "/view", rfl⟩⟩
  | view x =>
    exact ⟨⟨hmethod, ⟨by simp [Link.href, str], target_append (str "/memes/view/") (by decide) x⟩, by simp⟩,
      ⟨str "/view/" ++ x.text, rfl⟩⟩
  | manage x =>
    exact ⟨⟨hmethod, ⟨by simp [Link.href, str], target_append (str "/memes/manage/") (by decide) x⟩, by simp⟩,
      ⟨str "/manage/" ++ x.text, rfl⟩⟩

/-- The handler of the table gets the request for a link. -/
theorem answer_href (l : Link) (uuid : MemeId) (headers : List (Str × Str)) :
    (w.site uuid).answer w.recorder (parseRequest w.stale (requestText (str "GET") l.href headers [])) =
      some (serve uuid.text (parseRequest w.stale (requestText (str "GET") l.href headers []))) := by
  obtain ⟨hplain, hbegins⟩ := href_target l
  obtain ⟨-, -, huri, -⟩ := parseRequest_plain w.stale hplain headers
  obtain ⟨block, hroute⟩ := w.routed (parseRequest w.stale (requestText (str "GET") l.href headers [])).uri (by rwa [huri])
  rw [Site.answer_created _ _ _ hroute]
  rfl

/-- The file handler gets the request for a page. -/
theorem answer_page (l : Link) (uuid : MemeId) (headers : List (Str × Str)) :
    (w.site uuid).answer w.recorder (parseRequest w.stale (requestText (str "GET") (l.path ++ l.query) headers [])) =
      some (.ret (staticFileResponse { w.host with uuid := uuid.text } w.block
        (parseRequest w.stale (requestText (str "GET") (l.path ++ l.query) headers [])))) := by
  have hbegins : str "/web/memes" <+: l.path := ⟨str "/" ++ (l.page ++ str ".html"), rfl⟩
  obtain ⟨-, -, huri⟩ := page_asked w.stale l headers
  rw [Site.answer_created _ _ _ (w.pages _ (by rwa [← huri] at hbegins))]
  rfl

/-- A request for a link is redirected. -/
theorem answers_href (l : Link) {bytes : Str} (h : w.Answers engine l.href bytes) :
    redirection bytes = some (l.path ++ l.query) := by
  cases h with
  | @mk headers uuid _ p output db db' hdata _ hanswer hrun =>
    subst hdata
    rw [answer_href] at hanswer
    cases hanswer
    rw [requestText_target] at hrun
    obtain ⟨r, rfl, hcode, hheaders⟩ := href_redirected l _ _ _ _ _ _ _ _ _ (by decide) (by decide) hrun
    have hvalid := (parseRequest_plain w.stale (href_target l).1 headers).1
    exact w.redirection_reply uuid hvalid hcode hheaders (address_line l)

/-- A request for a page is answered with its file. -/
theorem answers_page (l : Link) {bytes : Str} (h : w.Answers engine (l.path ++ l.query) bytes) :
    redirection bytes = none ∧ (decodeResponse bytes).map (fun a => (a.1, a.2.2)) = some (w.shows l) := by
  cases h with
  | @mk headers uuid _ p output db db' hdata _ hanswer hrun =>
    subst hdata
    rw [answer_page] at hanswer
    cases hanswer
    obtain ⟨rfl, -⟩ := runs_ret.1 hrun
    obtain ⟨hvalid, hmethod, huri⟩ := page_asked w.stale l headers
    obtain ⟨contentType, ht, hcode, hserve⟩ := w.serveFile_page l hmethod huri uuid.text
    rw [hserve]
    exact w.redirection_page uuid hvalid hcode ht _

/-- There is an answer, whatever the engine answers. -/
theorem exists_answers (hengine : ∀ db call, ∃ r db', engine db call r db') {target : Str} (htarget : target.length < 900)
    {p : SqlProg Response}
    (hanswer : (w.site sampleId).answer w.recorder (parseRequest w.stale (requestText (str "GET") target [] [])) =
      some p) : ∃ bytes, w.Answers engine target bytes := by
  have hstep : ∀ db call, ∃ out : Reply × Db, engine db call out.1 out.2 := fun db call => by
    obtain ⟨r, db', h⟩ := hengine db call
    exact ⟨(r, db'), h⟩
  choose step hstep using hstep
  have hlength : (requestText (str "GET") target [] []).length ≤ maxLength := by
    simp [requestText, str, maxLength]
    omega
  exact ⟨_, .mk rfl hlength hanswer (runs_eval hstep p [])⟩

end WebSite

/-- A link leads to its page, whatever the table holds and whatever a database call
comes to: the browser is redirected exactly once, reads the page's file, and finds the
meme's id in the address. -/
theorem links_lead (w : WebSite) (engine : Db → Call → Reply → Db → Prop) (l : Link) :
    searchParam (str "id") (l.path ++ l.query) = l.id.map MemeId.text ∧
    (∀ n final bytes, w.Opens engine n l.href final bytes → n = 1 ∧ final = l.path ++ l.query ∧
      (decodeResponse bytes).map (fun a => (a.1, a.2.2)) = some (w.shows l)) ∧
    ((∀ db call, ∃ r db', engine db call r db') → ∃ bytes, w.Opens engine 1 l.href (l.path ++ l.query) bytes) := by
  refine ⟨searchParam_link l, fun n final bytes h => ?_, fun hengine => ?_⟩
  · cases h with
    | stays ha hstays => cases hstays.symm.trans (w.answers_href l ha)
    | follows ha hfollows h =>
      cases hfollows.symm.trans (w.answers_href l ha)
      cases h with
      | stays ha => exact ⟨rfl, rfl, (w.answers_page l ha).2⟩
      | follows ha hfollows => cases hfollows.symm.trans (w.answers_page l ha).1
  · have hlength : l.href.length < 900 ∧ (l.path ++ l.query).length < 900 := by
      cases l with
      | create => decide
      | list => decide
      | view x => simp [Link.href, Link.path, Link.page, Link.query, Link.id, str, x.length_text]
      | manage x => simp [Link.href, Link.path, Link.page, Link.query, Link.id, str, x.length_text]
    obtain ⟨bytes, ha⟩ := w.exists_answers hengine hlength.1 (w.answer_href l sampleId [])
    obtain ⟨bytes', ha'⟩ := w.exists_answers hengine hlength.2 (w.answer_page l sampleId [])
    exact ⟨bytes', .follows ha (w.answers_href l ha) (.stays ha' (w.answers_page l ha').1)⟩

/-! ## A site -/

def pagesRoutes : RouteMap := [(str "/memes", str "meme"), (str "/web/memes", str "webMeme")]

def pagesBlock : NginxConfig := [.line [str "location", str "/web/memes"], .line [str "root", str "/web"]]

def pagesConfig : NginxConfig :=
  [.block [str "handler", str "meme"] [.line [str "location", str "/memes"]],
    .block [str "handler", str "webMeme"] pagesBlock]

theorem pagesRoutes_memes {uri : Str} (h : str "/memes" <+: uri) : ∃ block,
    createHandler pagesConfig pagesRoutes pagesRoutes uri = some (.meme, block) := by
  have hother : ¬ str "/web/memes" <+: uri := by
    obtain ⟨t, rfl⟩ := h
    rintro ⟨s, hs⟩
    exact absurd (congrArg (·[1]?) hs) (by simp [str])
  have hmatch : longestPrefixMatch pagesRoutes uri = str "/memes" := by
    have hfirst : longer uri [] (str "/memes") = str "/memes" := if_pos ⟨h, by decide⟩
    rw [longestPrefixMatch_eq]
    show longer uri (longer uri [] (str "/memes")) (str "/web/memes") = _
    rw [hfirst]
    exact if_neg fun hlonger => hother hlonger.1
  refine ⟨some [.line [str "location", str "/memes"]], ?_⟩
  unfold createHandler dispatchName
  rw [hmatch]
  rfl

theorem pagesRoutes_pages (uri : Str) (h : str "/web/memes" <+: uri) :
    createHandler pagesConfig pagesRoutes pagesRoutes uri = some (.staticFile (str "webMeme"), some pagesBlock) := by
  have hother : ¬ str "/memes" <+: uri := by
    obtain ⟨t, rfl⟩ := h
    rintro ⟨s, hs⟩
    exact absurd (congrArg (·[1]?) hs) (by simp [str])
  have hmatch : longestPrefixMatch pagesRoutes uri = str "/web/memes" := by
    have hfirst : longer uri [] (str "/memes") = [] := if_neg fun hlonger => hother hlonger.1
    rw [longestPrefixMatch_eq]
    show longer uri (longer uri [] (str "/memes")) (str "/web/memes") = _
    rw [hfirst]
    exact if_pos ⟨h, by decide⟩
  unfold createHandler dispatchName
  rw [hmatch]
  rfl

theorem unplaced_nil : ∀ call ∈ ([] : List (Str × Str)), isLocation call = false := fun _ h => absurd h List.not_mem_nil

/-- A server with the table and one page. -/
def pagesSite : WebSite where
  config := pagesConfig
  routeMap := pagesRoutes
  visit := pagesRoutes
  calls := []
  headers := []
  host := ⟨"/srv", fun p => if p = str "/srv/web/view.html" then some "<p>" else none, [], [], fun _ _ =>
    .error .invalidArgument⟩
  recorder := ⟨[], []⟩
  order := id
  stale := fun _ q => q
  name := "webMeme"
  block := pagesBlock
  routed _ := pagesRoutes_memes
  pages := pagesRoutes_pages
  unplaced := unplaced_nil
  untyped := untyped_nil
  headers_perm := headers_nil
  order_perm := order_id

/-- The request for the link of a meme that is in the table. -/
def linkRequest : Str := requestText "GET" (str "/memes/view/" ++ sampleId.text) [(str "Host", str "a")] []

theorem links_lead_view : ∃ (output : Except StdException Response) (db' : Db) (bytes : Str),
    Runs (computes like) (memeDb twoMemes) (serve firstId.text (parseRequest (fun _ q => q) linkRequest)) output db' ∧
    redirection (pagesSite.reply firstId linkRequest output) = some (str "/web/memes/view.html?id=" ++ sampleId.text) ∧
    pagesSite.Opens (computes like) 1 (str "/memes/view/" ++ sampleId.text)
      (str "/web/memes/view.html?id=" ++ sampleId.text) bytes ∧
    (decodeResponse bytes).map (fun a => (a.1, a.2.2)) = some (200, str "<p>") := by
  obtain ⟨-, hopens, hexists⟩ := links_lead pagesSite (computes like) (.view sampleId)
  have hrun : Runs (computes like) (memeDb twoMemes) (serve firstId.text (parseRequest (fun _ q => q) linkRequest)) _ _ :=
    runs_eval (fun _ _ => rfl) _ _
  have ha : pagesSite.Answers (computes like) (Link.view sampleId).href _ :=
    .mk rfl (by decide) (pagesSite.answer_href (.view sampleId) firstId _) hrun
  obtain ⟨bytes, hbytes⟩ := hexists fun db call => ⟨_, _, rfl⟩
  exact ⟨_, _, bytes, hrun, pagesSite.answers_href _ ha, hbytes, (hopens _ _ _ hbytes).2.2⟩

end GittyUp.Meme
