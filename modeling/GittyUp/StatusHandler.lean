import GittyUp.Lib.Prog
import GittyUp.Meme.Handler
/-!
# The status handler

`handle_request` of `src/status_handler.cc` asks the recorder three times, each time
under its lock. It is a program of its calls, between which other threads may record
requests; `statusResponse` is what it comes to when none do.
-/
open Lib GittyUp.Http GittyUp.Meme

namespace GittyUp.Handlers

/-! ## The recorder -/

/-- `server_status_recorder`. -/
structure Recorder where
  urlResponseList : List (Str × Nat)
  prefixHandlerList : List (Str × Str)

def Recorder.requestRecorder (r : Recorder) (url : Str) (responseCode : Nat) : Recorder :=
  { r with urlResponseList := r.urlResponseList ++ [(url, responseCode)] }

inductive RecorderCall
  | requestRecorder (url : Str) (responseCode : Nat)
  | getUrlResponseListSize
  | getUrlResponseList
  | getPrefixHandlerList
deriving DecidableEq

open RecorderCall

/-- What a method returns, in the field of its name. -/
structure Answer where
  size : Int := 0
  urlResponseList : List (Str × Nat) := []
  prefixHandlerList : List (Str × Str) := []

/-- The size of the list as the `int` it is returned as. -/
def Recorder.size (r : Recorder) : Int := Int.bmod r.urlResponseList.length (2 ^ 32)

/-- The `int` is below zero, or the remainder of the size. -/
theorem Recorder.size_cases (r : Recorder) : (r.size < 0 ∧ 2 ^ 31 ≤ r.urlResponseList.length % 2 ^ 32) ∨
    r.size = ((r.urlResponseList.length % 2 ^ 32 : Nat) : Int) ∧ r.urlResponseList.length % 2 ^ 32 < 2 ^ 31 := by
  have hmod := Int.bmod_def r.urlResponseList.length (2 ^ 32)
  unfold Recorder.size
  omega

theorem Recorder.size_eq {r : Recorder} (h : r.urlResponseList.length < 2 ^ 31) : r.size = r.urlResponseList.length := by
  have hcases := r.size_cases
  omega

/-- A method of the recorder, under its lock. -/
def Recorder.answer (r : Recorder) : RecorderCall → Answer × Recorder
  | .requestRecorder url responseCode => ({}, r.requestRecorder url responseCode)
  | getUrlResponseListSize => ({ size := r.size }, r)
  | getUrlResponseList => ({ urlResponseList := r.urlResponseList }, r)
  | getPrefixHandlerList => ({ prefixHandlerList := r.prefixHandlerList }, r)

def Recorder.Answers (r : Recorder) (op : RecorderCall) (a : Answer) (r' : Recorder) : Prop := r.answer op = (a, r')

theorem Recorder.answer_size (r : Recorder) : r.answer getUrlResponseListSize = ({ size := r.size }, r) := rfl

theorem Recorder.answers_size {r r' : Recorder} {a : Answer} :
    r.Answers getUrlResponseListSize a r' ↔ a = { size := r.size } ∧ r = r' := by
  rw [Answers, answer_size, Prod.mk.injEq, @eq_comm _ a]

/-- A program that asks the recorder. It may end the process with a status. -/
abbrev RecorderProg := Prog RecorderCall Answer Nat

def ask (op : RecorderCall) : RecorderProg Answer := .call op .ret

/-! ## The page -/

/-- A row of a table of the status page. -/
def tableRow (left right : Str) : Str :=
  str "<tr><td>" ++ left ++ str "</td>" ++ str "<td>" ++ right ++ str "</td></tr>"

/-- The tables of the page: the row for no request or not, these rows, and these prefixes. -/
def tables (noRequest : Bool) (rows : List (Str × Nat)) (prefixHandlerList : List (Str × Str)) : Str :=
  (if noRequest then str "</tr><td colspan='2'>No Request</td><tr>" else []) ++
    (rows.flatMap (fun request => tableRow request.1 (dec request.2)) ++
      (str "</table>" ++ (str "<p>URL Prefix and Handler Matching</p><table><tr><th>Prefix</th><th>Handler</th></tr>" ++
        ((if prefixHandlerList = [] then str "</tr><td colspan= '2'>Empty</td><tr>"
          else prefixHandlerList.flatMap fun pre => tableRow pre.1 pre.2) ++ str "</table></body></html>"))))

/-- The page with a number of requests. -/
def pageText (numRequest : Int) (noRequest : Bool) (rows : List (Str × Nat)) (prefixHandlerList : List (Str × Str)) : Str :=
  str "<!DOCTYPE html><html><head></head><body><h1>Server Status</h1><p>Number of request: " ++ (decInt numRequest ++
    (str "</p>" ++ (str "<table><tr><th>URL</th><th>Response Code</th></tr>" ++ tables noRequest rows prefixHandlerList)))

/-- The row for no request is written for the number 0, and the rows of the list otherwise. -/
def statusBody (numRequest : Int) (urlResponseList : List (Str × Nat)) (prefixHandlerList : List (Str × Str)) : Str :=
  if numRequest = 0 then pageText numRequest true [] prefixHandlerList
  else pageText numRequest false urlResponseList prefixHandlerList

/-- `status_handler::handle_request`, call by call. -/
def handleStatusRequest : RecorderProg Response := do
  let numRequest := (← ask getUrlResponseListSize).size
  if numRequest < 0 then .throw 1
  else
    let urlResponseList := (← ask getUrlResponseList).urlResponseList
    let prefixHandlerList := (← ask getPrefixHandlerList).prefixHandlerList
    return respond 200 "text/html" (statusBody numRequest urlResponseList prefixHandlerList)

/-- Its response when nothing is recorded meanwhile. There is none if it ends the process. -/
def statusResponse (recorder : Recorder) : Option Response :=
  (handleStatusRequest.eval Recorder.answer recorder).1.toOption

theorem handleStatusRequest_eq : handleStatusRequest =
    .call getUrlResponseListSize fun a => if a.size < 0 then .throw 1 else
      .call getUrlResponseList fun b => .call getPrefixHandlerList fun c =>
        .ret (respond 200 "text/html" (statusBody a.size b.urlResponseList c.prefixHandlerList)) := by
  refine congrArg (Prog.call _) (funext fun a => ?_)
  by_cases h : a.size < 0
  · exact (if_pos h).trans (if_pos h).symm
  · exact (if_neg h).trans (if_neg h).symm

theorem statusResponse_eq (r : Recorder) : statusResponse r =
    if r.size < 0 then none
    else some (respond 200 "text/html" (statusBody r.size r.urlResponseList r.prefixHandlerList)) := by
  have hlist : r.answer getUrlResponseList = ({ urlResponseList := r.urlResponseList }, r) := rfl
  have hprefixes : r.answer getPrefixHandlerList = ({ prefixHandlerList := r.prefixHandlerList }, r) := rfl
  unfold statusResponse
  rw [handleStatusRequest_eq, Prog.eval, r.answer_size]
  dsimp only
  split_ifs with h
  · rfl
  · rw [Prog.eval, hlist, Prog.eval, hprefixes]
    rfl

/-- A page is HTML. -/
theorem statusResponse_some {r : Recorder} {output : Response} (h : statusResponse r = some output) :
    ∃ body, output = respond 200 "text/html" body := by
  rw [statusResponse_eq] at h
  split_ifs at h
  cases h
  exact ⟨_, rfl⟩

end GittyUp.Handlers
