import GittyUp.Config.Parser
import GittyUp.Router
/-!
# Starting the server

`main` of `src/server_main.cc`, up to `start_accept`: it reads the settings and
the router from whatever tree `Parse` has left, accepted or not.
-/
open Lib GittyUp.Config GittyUp.Router

namespace GittyUp.ServerMain

/-! ## The settings -/

/-- What `ParseStatements` keeps; the port only if it is valid. -/
structure Settings where
  port : Option Int
  root : Str
  threadCount : Nat

/-- One turn of the loop over the tokens, with `prev_token`. Behind a `continue` it stays as it is. -/
def settingsTurn (acc : Settings × Str) (token : Str) : Settings × Str :=
  let (settings, prevToken) := acc
  if prevToken = str "port" ∧ settings.port = none then
    match stoi token with
    | .ok port => if port > 0 ∧ port ≤ 65535 then ({ settings with port := some port }, token) else acc
    | .error _ => acc
  else if prevToken = str "root" then ({ settings with root := if token = str "." then [] else token }, token)
  else if prevToken = str "threadCount" then
    match stoi token with
    | .ok n =>
      -- an `int` that becomes unsigned
      let threads := (n % 2 ^ 32).toNat
      if threads > 0 then ({ settings with threadCount := threads }, token)
      else ({ settings with threadCount := 10 }, prevToken)
    | .error _ => acc
  else (settings, token)

/-- `ParseStatements`. It succeeds if there is a port. -/
def parseStatements (config : NginxConfig) : Settings :=
  config.foldl (fun settings statement => (statement.tokens.foldl settingsTurn (settings, [])).1) ⟨none, [], 10⟩

/-! ## The program -/

/-- `Parse` on a file; `none` is one that cannot be opened. -/
def parseFile : Option Str → Bool × NginxConfig
  | none => (false, [])
  | some configFile => parse configFile

structure Server where
  port : Int
  root : Str
  threadCount : Nat
  routerConfig : NginxConfig
  routes : Routes

inductive Outcome
  /-- There is no port. -/
  | parseFailure
  /-- An exception that `main` reports. -/
  | exception
  /-- A token is read that is not there. -/
  | undefined
  /-- `start_accept`, and then `run`. -/
  | accepting (server : Server)

/-- `main`, where `opens` tells whether a port can be listened on. The result of `Parse` is dropped. -/
def serverMain (opens : Int → Bool) (file : Option Str) : Outcome :=
  let config := (parseFile file).2
  let settings := parseStatements config
  match settings.port with
  | none => .parseFailure
  | some port =>
    if opens port then
      match createRouter config with
      | none => .undefined
      | some none => .exception
      | some (some routerConfig) =>
        match registerRoutesFromConfig routerConfig ⟨[], []⟩ with
        | none => .undefined
        | some routes => .accepting ⟨port, settings.root, settings.threadCount, routerConfig, routes⟩
    else .exception

end GittyUp.ServerMain
