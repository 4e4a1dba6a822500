import GittyUp.Http.Request
import GittyUp.Http.Response
import GittyUp.Lib.StableSort
import GittyUp.Meme.Form
import GittyUp.SqlLib
/-!
# The meme handler

`src/meme_handler.cc`: the calls to SQLite that a request makes, and the
response that it gets. The UUID that a creation draws is an argument.
-/
open Lib Lib.Sql GittyUp.Http GittyUp.SqlLib

namespace GittyUp.Meme

/-! ## Requests -/

/-- `\/memes/(.*)$` -/
def uriRe : Re := .lit '/' "memes/" ++ .group 1 (.many notEol) ++ .textEnd

/-- `check_uri`. -/
def checkUri (uri : Str) : Str :=
  match uriRe.search uri with
  | none => []
  | some m => Re.capture m 1

/-- `^[0-9a-fA-F]{8}\-[0-9a-fA-F]{4}\-[0-9a-fA-F]{4}\-[0-9a-fA-F]{4}\-[0-9a-fA-F]{12}$` -/
def idRe : Re :=
  .textStart ++ .times isHexDigit 7 ++ .lit '-' [] ++ .times isHexDigit 3 ++ .lit '-' [] ++ .times isHexDigit 3 ++
    .lit '-' [] ++ .times isHexDigit 3 ++ .lit '-' [] ++ .times isHexDigit 11 ++ .textEnd

/-- `check_id`. -/
def checkId (id : Str) : Bool := (idRe.search id).isSome

def hyphen : Byte := '-'

/-- Five blocks of hexadecimal digits, as `boost` writes a UUID. -/
def UuidText (s : Str) : Prop :=
  ∃ a b c d e : Str, s = a ++ hyphen :: (b ++ hyphen :: (c ++ hyphen :: (d ++ hyphen :: e))) ∧
    (a.length = 8 ∧ b.length = 4 ∧ c.length = 4 ∧ d.length = 4 ∧ e.length = 12) ∧
    ∀ x ∈ a ++ (b ++ (c ++ (d ++ e))), isHexDigit x

theorem checkId_iff (id : Str) : checkId id = true ↔ UuidText id := by
  unfold checkId
  rw [Re.search_isSome_iff]
  constructor
  · rintro ⟨pre, s, rfl, _, _, t₉, _, ⟨t₈, _, ⟨t₇, _, ⟨t₆, _, ⟨t₅, _, ⟨t₄, _, ⟨t₃, _, ⟨t₂, _, ⟨t₁, _, ⟨t₀, _, hstart, ha⟩, h₁⟩,
      hb⟩, h₂⟩, hc⟩, h₃⟩, hd⟩, h₄⟩, he⟩, hend⟩
    obtain ⟨hlen, rfl, rfl⟩ := hstart
    -- the match starts where the text does
    have hpre : pre = [] := by
      rw [List.length_append] at hlen
      exact List.length_eq_zero_iff.1 (by omega)
    subst hpre
    obtain ⟨a, hla, ha', rfl, rfl⟩ := Re.matches_times.1 ha
    obtain ⟨rfl, rfl⟩ := Re.matches_lit.1 h₁
    obtain ⟨b, hlb, hb', rfl, rfl⟩ := Re.matches_times.1 hb
    obtain ⟨rfl, rfl⟩ := Re.matches_lit.1 h₂
    obtain ⟨c, hlc, hc', rfl, rfl⟩ := Re.matches_times.1 hc
    obtain ⟨rfl, rfl⟩ := Re.matches_lit.1 h₃
    obtain ⟨d, hld, hd', rfl, rfl⟩ := Re.matches_times.1 hd
    obtain ⟨rfl, rfl⟩ := Re.matches_lit.1 h₄
    obtain ⟨e, hle, he', rfl, rfl⟩ := Re.matches_times.1 he
    obtain ⟨rfl, rfl, rfl⟩ := hend
    refine ⟨a, b, c, d, e, by simp [hyphen], ⟨hla, hlb, hlc, hld, hle⟩, fun x hx => ?_⟩
    simp only [List.mem_append] at hx
    rcases hx with hx | hx | hx | hx | hx
    · exact ha' x hx
    · exact hb' x hx
    · exact hc' x hx
    · exact hd' x hx
    · exact he' x hx
  · rintro ⟨a, b, c, d, e, rfl, ⟨hla, hlb, hlc, hld, hle⟩, h⟩
    generalize hn : List.length _ = n
    have block : ∀ {m : Nat} {w : Str} (t : Str), w.length = m + 1 →
        (∀ x ∈ w, x ∈ a ++ (b ++ (c ++ (d ++ e)))) → (Re.times isHexDigit m).Matches n (w ++ t) [] t [] :=
      fun t hl hw => Re.matches_times.2 ⟨_, hl, fun x hx => h x (hw x hx), rfl, rfl⟩
    have dash : ∀ t : Str, (Re.lit ('-' : Char) []).Matches n (hyphen :: t) [] t [] :=
      fun t => Re.matches_lit.2 ⟨rfl, rfl⟩
    have h₁ := block (hyphen :: (b ++ hyphen :: (c ++ hyphen :: (d ++ hyphen :: e)))) hla fun x hx => by simp [hx]
    have h₂ := block (hyphen :: (c ++ hyphen :: (d ++ hyphen :: e))) hlb fun x hx => by simp [hx]
    have h₃ := block (hyphen :: (d ++ hyphen :: e)) hlc fun x hx => by simp [hx]
    have h₄ := block (hyphen :: e) hld fun x hx => by simp [hx]
    have h₅ := block [] hle fun x hx => by simp [hx]
    rw [List.append_nil] at h₅
    exact ⟨[], _, rfl, [], [], _, _, ⟨_, _, ⟨_, _, ⟨_, _, ⟨_, _, ⟨_, _, ⟨_, _, ⟨_, _, ⟨_, _, ⟨_, _, ⟨hn, rfl, rfl⟩, h₁⟩, dash _⟩,
      h₂⟩, dash _⟩, h₃⟩, dash _⟩, h₄⟩, dash _⟩, h₅⟩, rfl, rfl, rfl⟩

/-- A byte of an id is a digit or a hyphen. -/
theorem checkId_chars {id : Str} (h : checkId id = true) : ∀ x ∈ id, isHexDigit x = true ∨ x = hyphen := by
  obtain ⟨a, b, c, d, e, rfl, -, hall⟩ := (checkId_iff id).1 h
  intro x hx
  by_cases hx' : x = hyphen
  · exact .inr hx'
  · refine .inl (hall x ?_)
    simp only [List.mem_append, List.mem_cons, hx', false_or] at hx ⊢
    exact hx

/-! ## Responses -/

/-- `mime_types`. -/
def mimeTypes : List (Str × Str) :=
  [(".txt", "text/plain"), (".html", "text/html"), (".htm", "text/html"), (".jpg", "image/jpeg"),
   (".jpeg", "image/jpeg"), (".zip", "application/zip"), (".json", "application/json"), (".xml", "application/xml"),
   (".css", "text/css"), (".js", "application/javascript"), (".ico", "image/x-icon")]

/-- `get_mime_type`. -/
def getMimeType (extension : Str) : Str := (mimeTypes.lookup extension).getD "application/octet-stream"

def respond (code : Nat) (contentType body : Str) : Response :=
  (Response.new code body).setHeader "Content-Type" contentType

/-- `{"id": "..."}` -/
def idJson (id : Str) : Str := str "\x7b\"id\": \"" ++ id ++ str "\"\x7d"

def redirectTo (location : Str) : Response :=
  (Response.new 303 (str "Location: " ++ location)).setHeader "Location" location

/-- `redirect_request`. -/
def redirectRequest (location : Str) : Response :=
  if location = str "create" then redirectTo "/web/memes/create.html"
  else if location = str "list" then redirectTo "/web/memes/list.html"
  else if location.take 7 = str "manage/" then redirectTo (str "/web/memes/manage.html?id=" ++ location.drop 7)
  else redirectTo (str "/web/memes/view.html?id=" ++ location)

/-- `invalid_method`. -/
def invalidMethod : Response := respond 405 "text/plain" "This route only supports the HTTP GET and POST methods!"

/-! ## The table -/

def tableName : Str := "meme_table"

/-- `field_names_` -/
def fieldNames : List Str := ["id", "img_path", "top_caption", "bot_caption", "times_viewed"]

def fieldName (i : Nat) : Str := fieldNames.getD i []

/-- An entry of a row that was read. -/
def entry (row : Row) (i : Nat) : Str := row.getD i []

/-- The constructor. -/
def construct : SqlProg Unit := do
  connect "meme.db"
  createTable tableName
    [(fieldName 0, "TEXT PRIMARY KEY NOT NULL"), (fieldName 1, "TEXT NOT NULL"), (fieldName 2, "TEXT NOT NULL"),
     (fieldName 3, "TEXT NOT NULL"), (fieldName 4, "TEXT NOT NULL")]

/-- `generate_new_meme`, when the generator yields `uuid`. -/
def generateNewMeme (uuid : Str) (params : List Str) : SqlProg Bool :=
  insertRecord tableName
    [(fieldName 0, uuid), (fieldName 1, params.getD 0 []), (fieldName 2, params.getD 1 []),
     (fieldName 3, params.getD 2 []), (fieldName 4, "0")]

/-- `create_meme`. -/
def createMeme (uuid : Str) (req : Request) : SqlProg Response := do
  match ← .ofExcept (bodyCheck req.requestBody) with
  | none => return respond 400 "text/plain" "The provided meme creation request is invalid!\n"
  | some params =>
    if ← generateNewMeme uuid params then return respond 201 "application/json" (idJson uuid)
    else return respond 500 "text/plain" "An error occurred while trying to create the provided meme!\n"

/-- `update_meme`. The body is checked also when the id is bad. -/
def updateMeme (req : Request) (memeId : Str) : SqlProg Response := do
  let check ← .ofExcept (bodyCheck req.requestBody)
  match checkId memeId, check with
  | true, some params =>
    if ← updateRecord tableName
        [(fieldName 1, params.getD 0 []), (fieldName 2, params.getD 1 []), (fieldName 3, params.getD 2 [])]
        [(fieldName 0, memeId)] then return respond 200 "application/json" (idJson memeId)
    else return respond 500 "text/plain" "An error occurred while trying to update the provided meme!\n"
  | _, _ => return respond 400 "text/plain" "The provided meme update request is invalid!\n"

/-- `delete_meme`. -/
def deleteMeme (memeId : Str) : SqlProg Response := do
  if checkId memeId then
    if ← deleteRecord tableName [(fieldName 0, memeId)] then return respond 200 "application/json" (idJson memeId)
    else return respond 500 "text/plain" "An error occurred while trying to delete the provided meme!\n"
  else return respond 400 "text/plain" "The provided meme delete request is invalid!\n"

/-! ## Lists -/

/-- `compareMemes`. -/
def compareMemes (meme1 meme2 : Row) : Except StdException Bool := do
  return decide ((← stoi (entry meme1 4)) < (← stoi (entry meme2 4)))

/-- What the loop writes for a row. -/
def listEntry (row : Row) : Str :=
  str "\"" ++ entry row 0 ++ str ":" ++ entry row 4 ++ str ":" ++ entry row 1 ++ str ":" ++ entry row 2 ++ str ":" ++
    entry row 3 ++ str "\""

/-- One turn of the loop, on the output and the flag `add_comma`. -/
def listTurn (result : List Row) (acc : Str × Bool) (i : Nat) : Str × Bool :=
  (acc.1 ++ (if acc.2 then str "," else []) ++ listEntry (result.getD (result.length - 1 - i) []), true)

/-- The array that `meme_list` and `meme_search` write, from the last row to the first. -/
def listOutput (result : List Row) : Str :=
  ((List.range result.length).foldl (listTurn result) (str "[", false)).1 ++ str "]"

/-- Sort the rows and answer with the array. -/
def answerList (result : List Row) : SqlProg Response := do
  let result ← .ofExcept (stableSort compareMemes result)
  return respond 200 (getMimeType ".json") (listOutput result)

/-- `meme_list`. -/
def memeList : SqlProg Response := do answerList (← selectRecord tableName [])

/-- `meme_search`. -/
def memeSearch (query : Str) : SqlProg Response := do
  let decodedQuery ← .ofExcept (uriDecode query)
  answerList (← searchRecord tableName [(fieldName 2, decodedQuery), (fieldName 3, decodedQuery)])

/-! ## One meme -/

/-- `n + 1` as an `int`. -/
def succInt (n : Int) : Int := (n + 1).bmod (2 ^ 32)

def memeJson (memeTemplate topCaption bottomCaption : Str) : Str :=
  str "\x7b" ++ (str "\"memeSelect\": \"" ++ memeTemplate ++ str "\", ") ++
    (str "\"topCaption\": \"" ++ topCaption ++ str "\", ") ++
    (str "\"bottomCaption\": \"" ++ bottomCaption ++ str "\"") ++ str "\x7d"

def notFound : Response := respond 404 "text/plain" "The requested file could not be found!\n"

def corrupted : Response := respond 400 (getMimeType ".txt") "The provided meme has been corrupted!"

/-- `get_meme_by_id`, behind its query. -/
def viewRows (result : List Row) : SqlProg Response :=
  match result with
  | [row] => do
    let currTimesViewed ← .ofExcept (stoi (entry row 4))
    let _ ← updateRecord tableName [(fieldName 4, decInt (succInt currTimesViewed))] [(fieldName 0, entry row 0)]
    if entry row 1 = [] ∨ entry row 2 = [] ∨ entry row 3 = [] then return corrupted
    else return respond 200 (getMimeType ".json") (memeJson (entry row 1) (entry row 2) (entry row 3))
  | _ => return notFound

/-- `get_meme_by_id`. -/
def getMemeById (id : Str) : SqlProg Response := do viewRows (← selectRecord tableName [(fieldName 0, id)])

/-! ## Dispatch -/

/-- The `GET` branch of `handle_request`. -/
def handleGet (check : Str) : SqlProg Response :=
  if check = str "create" ∨ check = str "create/" then return redirectRequest "create"
  else if check = str "view" ∨ check = str "view/" then return redirectRequest "list"
  else if check.length > 7 ∧ check.take 7 = str "manage/" then return redirectRequest check
  else if check.length > 5 ∧ check.take 5 = str "view/" then return redirectRequest (check.drop 5)
  else if check = [] ∨ check = str "/" then memeList
  else if check.length > 7 ∧ check.take 7 = str "search/" then memeSearch (check.drop 7)
  else getMemeById check

/-- `handle_request`. -/
def handleRequest (uuid : Str) (req : Request) : SqlProg Response :=
  if req.method = str "POST" then createMeme uuid req
  else if req.method = str "PUT" then updateMeme req (checkUri req.uri)
  else if req.method = str "DELETE" then deleteMeme (checkUri req.uri)
  else if req.method = str "GET" then handleGet (checkUri req.uri)
  else return invalidMethod

/-- A request gets a handler of its own. -/
def serve (uuid : Str) (req : Request) : SqlProg Response := do
  construct
  handleRequest uuid req

end GittyUp.Meme
