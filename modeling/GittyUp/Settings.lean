import GittyUp.ServerMain
/-!
# The settings as written

`ParseStatements` looks at each token with the one before it, and holds that one
back while the tokens behind a key are refused. `candidates` says which tokens are
looked at for which key, and `settings_as_written_iff` what becomes of them: the
port is the first number that can be one, but a thread count below zero is taken
for the unsigned number with the same bits.
-/
open Lib GittyUp.Config

namespace GittyUp.ServerMain

/-! ## The values of a statement -/

inductive Key
  | port | threadCount
  deriving DecidableEq

def Key.name : Key → Str
  | .port => "port"
  | .threadCount => "threadCount"

/-- The number a token is read as. -/
def number (token : Str) : Option Int := (stoi token).toOption

def portNumber (token : Str) : Option Int := (number token).filter fun n => 0 < n ∧ n ≤ 65535

/-- The key is done with this value; it looks further behind any other. -/
def Key.takes : Key → Str → Bool
  | .port, token => (portNumber token).isSome
  | .threadCount, token => (number token).any (· ≠ 0)

/-- What a token starts, where none is looked at. No second port is looked for. -/
def keyAt (found : Bool) (token : Str) : Option Key :=
  if token = str "port" ∧ found = false then some .port
  else if token = str "threadCount" then some .threadCount
  else none

/-- The tokens looked at, with their keys. A token looked at is no key itself. -/
def candidates : Bool → Option Key → List Str → List (Key × Str)
  | _, _, [] => []
  | found, none, token :: tokens => candidates found (keyAt found token) tokens
  | found, some key, token :: tokens =>
    (key, token) :: if key.takes token then candidates (found || key = .port) none tokens
      else candidates found (some key) tokens

def tokensFor (key : Key) (cs : List (Key × Str)) : List Str := (cs.filter fun c => c.1 = key).map (·.2)

/-- The candidates of the statements, in their order. -/
def candidatesIn : Bool → NginxConfig → List (Key × Str)
  | _, [] => []
  | found, s :: ss =>
    let cs := candidates found none s.tokens
    cs ++ candidatesIn (found || (tokensFor .port cs).any (Key.port.takes ·)) ss

/-- `token` stands in a statement behind the key, or behind tokens that the key has refused. -/
def Writes (config : NginxConfig) (key : Key) (token : Str) : Prop :=
  ∃ s ∈ config, ∃ before refused after, s.tokens = before ++ key.name :: (refused ++ token :: after) ∧
    ∀ u ∈ refused, key.takes u = false

/-- Every token before this one is refused as a port. -/
def FirstPort (tokens : List Str) (token : Str) : Prop :=
  ∃ before after, tokens = before ++ token :: after ∧ ∀ u ∈ before, Key.port.takes u = false

/-- The settings are in range, and the file says so. -/
structure AsWritten (config : NginxConfig) : Prop where
  port : ∃ port token, (parseStatements config).port = some port ∧ 1 ≤ port ∧ port ≤ 65535 ∧
    stoi token = .ok port ∧ Writes config .port token ∧ FirstPort (tokensFor .port (candidatesIn false config)) token
  threadCount : (parseStatements config).threadCount = 10 ∨
    ∃ n token, 1 ≤ n ∧ ((parseStatements config).threadCount : Int) = n ∧ stoi token = .ok n ∧
      Writes config .threadCount token

/-- The last thread count that is a number is below zero. -/
def NegativeCount (config : NginxConfig) : Prop :=
  ∃ n, ((tokensFor .threadCount (candidatesIn false config)).filterMap number).getLast? = some n ∧ n < 0

/-! ## One token -/

theorem number_eq_some {token : Str} {n : Int} : number token = some n ↔ stoi token = .ok n := by
  unfold number
  cases stoi token with
  | ok m => simp [Except.toOption]
  | error e => simp [Except.toOption]

theorem portNumber_eq_some {token : Str} {n : Int} : portNumber token = some n ↔
    stoi token = .ok n ∧ 0 < n ∧ n ≤ 65535 := by
  rw [portNumber, Option.filter_eq_some_iff, number_eq_some]
  simp

/-- A number is no key. -/
theorem keyAt_of_number {token : Str} {n : Int} (h : stoi token = .ok n) (found : Bool) : keyAt found token = none := by
  have hp : token ≠ str "port" := by
    rintro rfl
    cases h
  have ht : token ≠ str "threadCount" := by
    rintro rfl
    cases h
  rw [keyAt, if_neg (fun h => hp h.1), if_neg ht]

/-- The count that a candidate leaves. -/
def countAfter (count : Nat) (token : Str) : Nat :=
  match number token with
  | none => count
  | some n => if n = 0 then 10 else (n % 2 ^ 32).toNat

theorem turn_free {settings : Settings} {prev : Str} (h : keyAt settings.port.isSome prev = none) (token : Str) :
    ∃ root, settingsTurn (settings, prev) token = ({ settings with root := root }, token) := by
  have hp : ¬ (prev = str "port" ∧ settings.port = none) := by
    rintro ⟨rfl, hn⟩
    simp [keyAt, hn] at h
  have ht : prev ≠ str "threadCount" := by
    rintro rfl
    simp [keyAt] at h
    split at h <;> cases h
  by_cases hr : prev = str "root"
  · exact ⟨_, by rw [settingsTurn, if_neg hp, if_pos hr]⟩
  · exact ⟨settings.root, by rw [settingsTurn, if_neg hp, if_neg hr, if_neg ht]⟩

theorem turn_port {settings : Settings} {prev : Str} (h : keyAt settings.port.isSome prev = some .port) (token : Str) :
    settings.port = none ∧
      (portNumber token = none → settingsTurn (settings, prev) token = (settings, prev)) ∧
      ∀ port, portNumber token = some port →
        settingsTurn (settings, prev) token = ({ settings with port := some port }, token) := by
  have hp : prev = str "port" ∧ settings.port = none := by
    unfold keyAt at h
    split_ifs at h with hp ht
    · exact ⟨hp.1, by simpa using hp.2⟩
    · cases h
  refine ⟨hp.2, fun hn => ?_, fun port hn => ?_⟩
  · rw [settingsTurn, if_pos hp]
    cases hs : stoi token with
    | error e => rfl
    | ok n =>
      refine if_neg fun hr => ?_
      rw [portNumber_eq_some.2 ⟨hs, hr⟩] at hn
      cases hn
  · obtain ⟨hs, hr⟩ := portNumber_eq_some.1 hn
    rw [settingsTurn, if_pos hp, hs]
    exact if_pos hr

theorem turn_threadCount {settings : Settings} {prev : Str} (h : keyAt settings.port.isSome prev = some .threadCount)
    (token : Str) : settingsTurn (settings, prev) token =
      ({ settings with threadCount := countAfter settings.threadCount token },
        if Key.threadCount.takes token then token else prev) := by
  have ht : prev = str "threadCount" := by
    unfold keyAt at h
    split_ifs at h with hp ht
    · cases h
    · exact ht
  subst ht
  rw [settingsTurn, if_neg (by rintro ⟨h, -⟩; cases h), if_neg (by rintro h; cases h), if_pos rfl]
  unfold countAfter Key.takes
  cases hn : stoi token with
  | error e => simp [number, hn, Except.toOption]
  | ok n =>
    obtain ⟨hlo, hhi⟩ := stoi_range hn
    have hz : (n % 2 ^ 32).toNat > 0 ↔ n ≠ 0 := by omega
    simp only [number, hn, Except.toOption, hz]
    by_cases h0 : n = 0
    · simp [h0]
    · simp [h0]

/-! ## The scan -/

@[simp] theorem tokensFor_cons (key : Key) (c : Key × Str) (cs : List (Key × Str)) :
    tokensFor key (c :: cs) = if c.1 = key then c.2 :: tokensFor key cs else tokensFor key cs := by
  unfold tokensFor
  rw [List.filter_cons]
  by_cases h : c.1 = key
  · simp [h]
  · simp [h]

@[simp] theorem tokensFor_append (key : Key) (cs ds : List (Key × Str)) :
    tokensFor key (cs ++ ds) = tokensFor key cs ++ tokensFor key ds := by
  simp [tokensFor]

/-- `settings` are what the candidates `cs` make of `old`. -/
def Made (old settings : Settings) (cs : List (Key × Str)) : Prop :=
  settings.port = old.port.or ((tokensFor .port cs).findSome? portNumber) ∧
    settings.threadCount = (tokensFor .threadCount cs).foldl countAfter old.threadCount

theorem Made.append {old mid settings : Settings} {cs ds : List (Key × Str)} (h : Made old mid cs)
    (h' : Made mid settings ds) : Made old settings (cs ++ ds) := by
  constructor
  · rw [h'.1, h.1, tokensFor_append, List.findSome?_append, Option.or_assoc]
  · rw [h'.2, h.2, tokensFor_append, List.foldl_append]

theorem Made.found {old settings : Settings} {cs : List (Key × Str)} (h : Made old settings cs) :
    settings.port.isSome = (old.port.isSome || (tokensFor .port cs).any (Key.port.takes ·)) := by
  rw [h.1, Option.isSome_or, List.isSome_findSome?]
  rfl

/-- One statement. -/
theorem statement_made (tokens : List Str) : ∀ (settings : Settings) (prev : Str),
    Made settings (tokens.foldl settingsTurn (settings, prev)).1
      (candidates settings.port.isSome (keyAt settings.port.isSome prev) tokens) := by
  induction tokens with
  | nil =>
    intro settings prev
    rw [candidates]
    exact ⟨by simp [tokensFor], rfl⟩
  | cons token tokens ih =>
    intro settings prev
    rw [List.foldl_cons]
    cases hk : keyAt settings.port.isSome prev with
    | none =>
      obtain ⟨root, he⟩ := turn_free hk token
      rw [he, candidates]
      exact ih { settings with root := root } token
    | some key =>
      cases key with
      | port =>
        obtain ⟨hnone, hrefused, htaken⟩ := turn_port hk token
        rw [candidates]
        cases hn : portNumber token with
        | none =>
          have h := ih settings prev
          rw [hk] at h
          rw [hrefused hn, if_neg (by simp [Key.takes, hn])]
          have hone : Made settings settings [(Key.port, token)] := ⟨by simp [tokensFor, hn], by simp [tokensFor]⟩
          exact hone.append h
        | some port =>
          have h := ih { settings with port := some port } token
          rw [Option.isSome_some, keyAt_of_number (portNumber_eq_some.1 hn).1] at h
          rw [htaken port hn, if_pos (by simp [Key.takes, hn]), Bool.or_eq_true_iff.2 (.inr (decide_eq_true rfl))]
          have hone : Made settings { settings with port := some port } [(Key.port, token)] :=
            ⟨by simp [tokensFor, hn, hnone], by simp [tokensFor]⟩
          exact hone.append h
      | threadCount =>
        rw [turn_threadCount hk token, candidates]
        have hone : Made settings { settings with threadCount := countAfter settings.threadCount token }
            [(Key.threadCount, token)] := ⟨by simp [tokensFor], by simp [tokensFor]⟩
        cases ht : Key.threadCount.takes token with
        | false =>
          have h := ih { settings with threadCount := countAfter settings.threadCount token } prev
          rw [hk] at h
          exact hone.append h
        | true =>
          have h := ih { settings with threadCount := countAfter settings.threadCount token } token
          have hn : ∃ n, stoi token = .ok n := by
            cases hs : stoi token with
            | ok n => exact ⟨n, rfl⟩
            | error e => simp [Key.takes, number, hs, Except.toOption] at ht
          obtain ⟨n, hn⟩ := hn
          rw [keyAt_of_number hn] at h
          rw [if_pos rfl]
          simp only [reduceCtorEq, decide_false, Bool.or_false]
          exact hone.append h

theorem config_made (config : NginxConfig) : ∀ settings : Settings,
    Made settings (config.foldl (fun settings statement => (statement.tokens.foldl settingsTurn (settings, [])).1) settings)
      (candidatesIn settings.port.isSome config) := by
  induction config with
  | nil => intro settings; exact ⟨by simp [candidatesIn, tokensFor], rfl⟩
  | cons s ss ih =>
    intro settings
    have hs := statement_made s.tokens settings []
    have hk : keyAt settings.port.isSome [] = none := by
      rw [keyAt, if_neg (by rintro ⟨h, -⟩; cases h), if_neg (by rintro h; cases h)]
    rw [hk] at hs
    have h := ih (s.tokens.foldl settingsTurn (settings, [])).1
    rw [hs.found] at h
    exact hs.append h

/-! ## Where a candidate stands -/

theorem keyAt_name {found : Bool} {token : Str} {key : Key} (h : keyAt found token = some key) : token = key.name := by
  unfold keyAt at h
  split_ifs at h with hp ht
  · cases h; exact hp.1
  · cases h; exact ht

/-- A candidate stands behind its key, or behind tokens refused for the key that is looked at. -/
theorem candidate_place {key : Key} {token : Str} (tokens : List Str) : ∀ {found : Bool} {at' : Option Key},
    (key, token) ∈ candidates found at' tokens →
      (∃ before refused after, tokens = before ++ key.name :: (refused ++ token :: after) ∧
        ∀ u ∈ refused, key.takes u = false) ∨
      at' = some key ∧ ∃ refused after, tokens = refused ++ token :: after ∧ ∀ u ∈ refused, key.takes u = false := by
  induction tokens with
  | nil => intro found at' h; simp [candidates] at h
  | cons t tokens ih =>
    intro found at' h
    cases at' with
    | none =>
      rw [candidates] at h
      left
      rcases ih h with ⟨before, refused, after, rfl, hr⟩ | ⟨hk, refused, after, rfl, hr⟩
      · exact ⟨t :: before, refused, after, rfl, hr⟩
      · exact ⟨[], refused, after, by rw [keyAt_name hk]; rfl, hr⟩
    | some k =>
      rw [candidates] at h
      rcases List.mem_cons.1 h with h | h
      · cases h
        exact .inr ⟨rfl, [], tokens, rfl, by simp⟩
      · by_cases ht : k.takes t = true
        · rw [if_pos ht] at h
          rcases ih h with ⟨before, refused, after, rfl, hr⟩ | ⟨hk, -⟩
          · exact .inl ⟨t :: before, refused, after, rfl, hr⟩
          · cases hk
        · rw [if_neg ht] at h
          rcases ih h with ⟨before, refused, after, rfl, hr⟩ | ⟨hk, refused, after, rfl, hr⟩
          · exact .inl ⟨t :: before, refused, after, rfl, hr⟩
          · cases hk
            refine .inr ⟨rfl, t :: refused, after, rfl, fun u hu => ?_⟩
            rcases List.mem_cons.1 hu with rfl | hu
            · exact Bool.not_eq_true _ ▸ ht
            · exact hr u hu

theorem candidate_written {key : Key} {token : Str} (config : NginxConfig) : ∀ {found : Bool},
    token ∈ tokensFor key (candidatesIn found config) → Writes config key token := by
  induction config with
  | nil => intro found h; simp [candidatesIn, tokensFor] at h
  | cons s ss ih =>
    intro found h
    rw [candidatesIn, tokensFor_append] at h
    rcases List.mem_append.1 h with h | h
    · obtain ⟨⟨k, t⟩, hf, rfl⟩ := List.mem_map.1 h
      obtain ⟨hc, hk⟩ := List.mem_filter.1 hf
      obtain rfl : k = key := by simpa using hk
      rcases candidate_place s.tokens hc with hw | ⟨hn, -⟩
      · exact ⟨s, List.mem_cons_self, hw⟩
      · cases hn
    · obtain ⟨s', hs', hw⟩ := ih h
      exact ⟨s', List.mem_cons_of_mem s hs', hw⟩

/-! ## The settings -/

/-- The last number decides. -/
theorem countAfter_foldl (tokens : List Str) : ∀ count : Nat, tokens.foldl countAfter count =
    ((tokens.filterMap number).getLast?.map fun n => if n = 0 then 10 else (n % 2 ^ 32).toNat).getD count := by
  induction tokens with
  | nil => intro count; rfl
  | cons t tokens ih =>
    intro count
    rw [List.foldl_cons, ih, countAfter]
    cases hn : number t with
    | none => rw [List.filterMap_cons_none hn]
    | some n =>
      rw [List.filterMap_cons_some hn, List.getLast?_cons]
      cases (tokens.filterMap number).getLast? <;> rfl

theorem parseStatements_made (config : NginxConfig) :
    Made ⟨none, [], 10⟩ (parseStatements config) (candidatesIn false config) :=
  config_made config ⟨none, [], 10⟩

/-- The port is in range, and it is the first one written. -/
theorem port_as_written {config : NginxConfig} (h : (parseStatements config).port.isSome) :
    ∃ port token, (parseStatements config).port = some port ∧ 1 ≤ port ∧ port ≤ 65535 ∧ stoi token = .ok port ∧
      Writes config .port token ∧ FirstPort (tokensFor .port (candidatesIn false config)) token := by
  obtain ⟨port, hp⟩ := Option.isSome_iff_exists.1 h
  have hm := (parseStatements_made config).1
  rw [hp, Option.none_or] at hm
  obtain ⟨before, token, after, hts, hport, hbefore⟩ := List.findSome?_eq_some_iff.1 hm.symm
  obtain ⟨hs, hlo, hhi⟩ := portNumber_eq_some.1 hport
  have hmem : token ∈ tokensFor .port (candidatesIn false config) := by
    rw [hts]
    simp
  refine ⟨port, token, hp, hlo, hhi, hs, candidate_written config hmem, before, after, hts, ?_⟩
  intro u hu
  rw [Key.takes, hbefore u hu]
  rfl

/-- The settings are as written, unless the last thread count that is a number is
below zero: it passes the test for a positive one. -/
theorem settings_as_written_iff (config : NginxConfig) (h : (parseStatements config).port.isSome) :
    AsWritten config ↔ ¬ NegativeCount config := by
  have hcount := (parseStatements_made config).2
  rw [countAfter_foldl] at hcount
  constructor
  · rintro ⟨-, hthreads⟩ ⟨n, hlast, hneg⟩
    rw [hlast] at hcount
    obtain ⟨token, -, hn⟩ := List.mem_filterMap.1 (List.mem_of_getLast? hlast)
    obtain ⟨hlo, -⟩ := stoi_range (number_eq_some.1 hn)
    have hbig : 2 ^ 31 ≤ (parseStatements config).threadCount := by
      rw [hcount]
      simp only [Option.map_some, Option.getD_some, if_neg (show n ≠ 0 by omega)]
      omega
    rcases hthreads with ht | ⟨m, token', -, hm, hs, -⟩
    · omega
    · obtain ⟨-, hhi⟩ := stoi_range hs
      omega
  · intro hneg
    refine ⟨port_as_written h, ?_⟩
    cases hlast : ((tokensFor .threadCount (candidatesIn false config)).filterMap number).getLast? with
    | none => rw [hlast] at hcount; exact .inl hcount
    | some n =>
      rw [hlast] at hcount
      simp only [Option.map_some, Option.getD_some] at hcount
      have hn : ¬ n < 0 := fun hn => hneg ⟨n, hlast, hn⟩
      by_cases h0 : n = 0
      · rw [if_pos h0] at hcount; exact .inl hcount
      · rw [if_neg h0] at hcount
        obtain ⟨token, hmem, hnum⟩ := List.mem_filterMap.1 (List.mem_of_getLast? hlast)
        have hs := number_eq_some.1 hnum
        obtain ⟨-, hhi⟩ := stoi_range hs
        exact .inr ⟨n, token, by omega, by rw [hcount]; omega, hs, candidate_written config hmem⟩

/-- `port x 80; threadCount 4 ...`: the port behind a token that is refused, and the count. -/
theorem settings_sample : AsWritten [.line [str "port", str "x", str "80"], .line [str "threadCount", str "4"]] := by
  refine (settings_as_written_iff _ rfl).2 ?_
  rintro ⟨n, hlast, hneg⟩
  have hl : ((tokensFor .threadCount (candidatesIn false
      [.line [str "port", str "x", str "80"], .line [str "threadCount", str "4"]])).filterMap number).getLast? =
      some 4 := by decide +kernel
  rw [hl] at hlast
  cases hlast
  omega

/-- The config of `port 80; threadCount -1;`. -/
def negativeConfig : NginxConfig := [.line [str "port", str "80"], .line [str "threadCount", str "-1"]]

/-- It asks for four thousand million threads. -/
theorem settings_negative : (parseStatements negativeConfig).port = some 80 ∧
    (parseStatements negativeConfig).threadCount = 4294967295 ∧ ¬ AsWritten negativeConfig := by
  have ht : (parseStatements negativeConfig).threadCount = 4294967295 := by decide +kernel
  refine ⟨by decide +kernel, ht, fun h => ?_⟩
  rcases h.threadCount with h | ⟨n, token, -, hn, hs, -⟩
  · omega
  · obtain ⟨-, hhi⟩ := stoi_range hs
    omega

end GittyUp.ServerMain
