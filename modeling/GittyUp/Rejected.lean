import GittyUp.Config.Partial
import GittyUp.Settings
/-!
# Rejected files

`main` drops what `Parse` returns, so it starts on what a rejected file has before
the place where it breaks. `rejected_iff` says which texts have enough there: a port
and a router, each behind whole statements and outside all blocks.
-/
open Lib GittyUp.Config GittyUp.Router

namespace GittyUp.ServerMain

/-- One word while a thread count is looked for, or while it is not. -/
def countTurn (awaits : Bool) (word : Str) : Bool :=
  if awaits then !Key.threadCount.takes word else word = str "threadCount"

/-- A port is among the words of a statement: a number that can be one, behind a
`port` that is not itself looked at for a thread count. -/
def NamesPort (words : List Str) : Prop :=
  ∃ before after, words = before ++ str "port" :: after ∧ before.foldl countTurn false = false ∧
    ∃ token ∈ after, (portNumber token).isSome

/-- In its first tokens the text has words with a port, and `router` with a block,
each behind whole statements. What comes after them is not looked at. -/
def Serviceable (text : Str) : Prop :=
  ∃ a b ts cut, text = a ++ b ∧ Text a ts cut ∧ (∃ words rest, Stands ts words rest ∧ NamesPort words) ∧
    ∃ words rest, Stands ts (str "router" :: words) (.openBrace :: rest)

/-- The whole text is a config, but for a word that the end of the file cuts off. -/
def Accepted (text : Str) : Prop := ∃ ts cut c, Text text ts cut ∧ Derives ts c

/-! ## The port -/

/-- Behind `port` the first number that can be one is taken. -/
theorem port_pending (words : List Str) :
    (tokensFor .port (candidates false (some .port) words)).any (Key.port.takes ·) = true ↔
      ∃ token ∈ words, (portNumber token).isSome := by
  induction words with
  | nil => simp [candidates, tokensFor]
  | cons word words ih =>
    rw [candidates, tokensFor_cons, if_pos rfl, List.any_cons, Bool.or_eq_true, List.exists_mem_cons_iff]
    cases ht : Key.port.takes word with
    | true => exact iff_of_true (.inl rfl) (.inl ht)
    | false =>
      have hnone : ¬ (portNumber word).isSome := fun h => Bool.noConfusion (ht.symm.trans h)
      simp only [Bool.false_eq_true, if_false, false_or, hnone, ih]

/-- Before that a thread count may be looked for, which passes over a `port`. -/
theorem port_named (words : List Str) : ∀ awaits : Bool,
    (tokensFor .port (candidates false (if awaits then some .threadCount else none) words)).any
      (Key.port.takes ·) = true ↔ ∃ before after, words = before ++ str "port" :: after ∧
        before.foldl countTurn awaits = false ∧ ∃ token ∈ after, (portNumber token).isSome := by
  induction words with
  | nil => simp [candidates, tokensFor]
  | cons word words ih =>
    intro awaits
    -- a `port` further on
    have later : (∃ before after, words = before ++ str "port" :: after ∧
          before.foldl countTurn (countTurn awaits word) = false ∧ ∃ token ∈ after, (portNumber token).isSome) ↔
        ∃ before after, word :: words = (word :: before) ++ str "port" :: after ∧
          (word :: before).foldl countTurn awaits = false ∧ ∃ token ∈ after, (portNumber token).isSome := by
      simp
    -- the first word is no `port` that is looked at as one
    have skip : (awaits = false → word ≠ str "port") →
        ((∃ before after, words = before ++ str "port" :: after ∧
          before.foldl countTurn (countTurn awaits word) = false ∧ ∃ token ∈ after, (portNumber token).isSome) ↔
        ∃ before after, word :: words = before ++ str "port" :: after ∧
          before.foldl countTurn awaits = false ∧ ∃ token ∈ after, (portNumber token).isSome) := by
      intro hword
      rw [later]
      constructor
      · rintro ⟨before, after, h⟩
        exact ⟨_, after, h⟩
      · rintro ⟨before, after, he, hb, ht⟩
        cases before with
        | nil =>
          cases he
          exact absurd rfl (hword hb)
        | cons w before =>
          cases he
          exact ⟨before, after, rfl, hb, ht⟩
    cases awaits with
    | true =>
      have hno : ¬ true = false := Bool.noConfusion
      rw [← skip fun h => absurd h hno, ← ih, if_pos rfl, candidates, tokensFor_cons, if_neg (by simp)]
      cases ht : Key.threadCount.takes word with
      | true => simp [countTurn, ht]
      | false => simp [countTurn, ht]
    | false =>
      rw [if_neg Bool.false_ne_true, candidates]
      by_cases hp : word = str "port"
      · subst hp
        have hkey : keyAt false (str "port") = some .port := rfl
        rw [hkey, port_pending]
        constructor
        · exact fun h => ⟨[], words, rfl, rfl, h⟩
        · rintro ⟨before, after, he, -, token, ht, hn⟩
          cases before with
          | nil =>
            cases he
            exact ⟨token, ht, hn⟩
          | cons w before =>
            cases he
            exact ⟨token, by simp [ht], hn⟩
      · rw [← skip fun _ => hp, ← ih]
        have hkey : keyAt false word = if countTurn false word then some .threadCount else none := by
          simp [keyAt, countTurn, hp]
        rw [hkey]

theorem port_found (config : NginxConfig) :
    (tokensFor .port (candidatesIn false config)).any (Key.port.takes ·) = true ↔ ∃ s ∈ config, NamesPort s.tokens := by
  induction config with
  | nil => simp [candidatesIn, tokensFor]
  | cons s ss ih =>
    have hs : (tokensFor .port (candidates false none s.tokens)).any (Key.port.takes ·) = true ↔ NamesPort s.tokens :=
      port_named s.tokens false
    rw [candidatesIn, tokensFor_append, List.any_append, Bool.or_eq_true, List.exists_mem_cons_iff, hs]
    by_cases hn : NamesPort s.tokens
    · exact iff_of_true (.inl hn) (.inl hn)
    · have hno : (tokensFor .port (candidates false none s.tokens)).any (Key.port.takes ·) = false :=
        Bool.eq_false_iff.2 (mt hs.1 hn)
      simp only [hno, hn, Bool.or_false, false_or, ih]

/-- There is a port if and only if a statement has one. -/
theorem parseStatements_port (config : NginxConfig) :
    (parseStatements config).port.isSome ↔ ∃ s ∈ config, NamesPort s.tokens := by
  rw [(parseStatements_made config).found, Option.isSome_none, Bool.false_or]
  exact port_found config

theorem NamesPort.more {words : List Str} (h : NamesPort words) {words' : List Str} (hp : words <+: words') :
    NamesPort words' := by
  obtain ⟨before, after, rfl, hb, token, ht, hn⟩ := h
  obtain ⟨more, rfl⟩ := hp
  exact ⟨before, after ++ more, by simp, hb, token, List.mem_append_left more ht, hn⟩

theorem NamesPort.ne_nil {words : List Str} (h : NamesPort words) : words ≠ [] := by
  obtain ⟨before, after, rfl, -⟩ := h
  simp

/-! ## The tree of a rejected file -/

theorem parseFile_worded (file : Option Str) : Worded (parseFile file).2 := by
  cases file with
  | none => exact .nil
  | some configFile => exact parse_worded configFile

/-- Looking for the router reads no token that is not there, and finds a block if there is one. -/
theorem createRouter_found (file : Option Str) : ∃ out, createRouter (parseFile file).2 = some out ∧
    (out.isSome ↔ ∃ s ∈ (parseFile file).2, s.childBlock.isSome ∧ s.tokens.head? = some (str "router")) := by
  have htest : ∀ s ∈ (parseFile file).2, ∃ token, s.tokens.head? = some token ∧
      isRouter s.tokens = some (decide (token = str "router")) := by
    intro s hs
    obtain ⟨token, hh⟩ := Option.isSome_iff_exists.1 (List.isSome_head?.2 ((parseFile_worded file).tokens s hs))
    refine ⟨token, hh, ?_⟩
    rw [isRouter, ← List.head?_eq_getElem?, hh]
    rfl
  have hread : ∀ s ∈ (parseFile file).2, s.childBlock.isSome → (isRouter s.tokens).isSome := by
    intro s hs _
    obtain ⟨token, -, ht⟩ := htest s hs
    rw [ht]
    rfl
  obtain ⟨out, hout, hfound, hnone⟩ := lastBlock_spec (parseFile file).2 hread
  refine ⟨out, hout, ?_, ?_⟩
  · intro hsome
    obtain ⟨child, rfl⟩ := Option.isSome_iff_exists.1 hsome
    obtain ⟨s, hs, hc, hr⟩ := hfound child rfl
    obtain ⟨token, hh, ht⟩ := htest s hs
    rw [ht, Option.some_inj, decide_eq_true_eq] at hr
    exact ⟨s, hs, by rw [hc]; rfl, by rw [hh, hr]⟩
  · rintro ⟨s, hs, hc, hh⟩
    cases out with
    | some child => rfl
    | none =>
      have hr := hnone rfl s hs hc
      obtain ⟨token, hh', ht⟩ := htest s hs
      rw [ht, Option.some_inj, decide_eq_false_iff_not] at hr
      exact absurd (Option.some.inj (hh'.symm.trans hh)) hr

/-- The first tokens of the text are enough just when the tree has a port and a router. -/
theorem serviceable_iff (text : Str) : Serviceable text ↔ (∃ s ∈ (parse text).2, NamesPort s.tokens) ∧
    ∃ s ∈ (parse text).2, s.childBlock.isSome ∧ s.tokens.head? = some (str "router") := by
  constructor
  · rintro ⟨a, b, ts, cut, rfl, ht, ⟨words, rest, hs, hport⟩, words', rest', hs'⟩
    obtain ⟨s, hmem, hpre, -⟩ := parse_stands ht b hs hport.ne_nil
    obtain ⟨s', hmem', -, hblock⟩ := parse_stands ht b hs' (List.cons_ne_nil _ _)
    obtain ⟨hc, htokens⟩ := hblock rfl
    exact ⟨⟨s, hmem, hport.more hpre⟩, s', hmem', hc, by rw [htokens]; rfl⟩
  · rintro ⟨⟨s, hs, hport⟩, s', hs', hc, hh⟩
    obtain ⟨a, b, ts, cut, hab, ht, hlisted⟩ := parse_listed text
    obtain ⟨rest, hstands, -⟩ := hlisted s hs
    obtain ⟨rest', hstands', hbrace⟩ := hlisted s' hs'
    obtain ⟨words, hw⟩ : ∃ words, s'.tokens = str "router" :: words := List.head?_eq_some_iff.1 hh
    obtain ⟨more, rfl⟩ : ∃ us, rest' = .openBrace :: us := List.head?_eq_some_iff.1 (hbrace hc)
    rw [hw] at hstands'
    exact ⟨a, b, ts, cut, hab, ht, ⟨s.tokens, rest, hstands, hport⟩, words, more, hstands'⟩

theorem accepted_iff (text : Str) : (parse text).1 = true ↔ Accepted text := by
  constructor
  · intro h
    obtain ⟨ts, cut, ht, hd⟩ := (parse_iff text (parse text).2).1 (Prod.ext h rfl)
    exact ⟨ts, cut, _, ht, hd⟩
  · rintro ⟨ts, cut, c, ht, hd⟩
    rw [(parse_iff text c).2 ⟨ts, cut, ht, hd⟩]

/-! ## Serving -/

def Accepting (outcome : Outcome) : Prop := ∃ server, outcome = .accepting server

/-- `main` returns without serving. -/
def Refused (outcome : Outcome) : Prop := outcome = .parseFailure ∨ outcome = .exception

theorem refused_iff_not_accepting {outcome : Outcome} (h : outcome ≠ .undefined) :
    Refused outcome ↔ ¬ Accepting outcome := by
  cases outcome with
  | undefined => exact absurd rfl h
  | parseFailure => simp [Refused, Accepting]
  | exception => simp [Refused, Accepting]
  | accepting server => simp [Refused, Accepting]

/-- Without a port or a router, and only then, `main` returns whatever port can be listened on. -/
theorem refused_iff (file : Option Str) : (∀ opens, Refused (serverMain opens file)) ↔
    ¬ ((parseStatements (parseFile file).2).port.isSome ∧
      ∃ s ∈ (parseFile file).2, s.childBlock.isSome ∧ s.tokens.head? = some (str "router")) := by
  obtain ⟨out, hout, hfound⟩ := createRouter_found file
  rw [← hfound]
  unfold serverMain Refused
  cases hport : (parseStatements (parseFile file).2).port with
  | none => simp only [hport]; simp
  | some port =>
    cases out with
    | none =>
      refine iff_of_true (fun opens => ?_) (by simp)
      cases hopens : opens port with
      | false => simp only [hport, hopens]; simp
      | true => simp only [hport, hopens, hout]; simp
    | some routerConfig =>
      refine iff_of_false (fun h => ?_) (by simp)
      -- on a port that can be listened on
      have hopen := h fun _ => true
      simp only [hport, hout] at hopen
      cases hroutes : registerRoutesFromConfig routerConfig ⟨[], []⟩ with
      | none => simp [hroutes] at hopen
      | some routes => simp [hroutes] at hopen

/-- A text that is rejected and still has enough before the place where it breaks. -/
def Overlooked (file : Option Str) : Prop := ∃ text, file = some text ∧ ¬ Accepted text ∧ Serviceable text

theorem overlooked_iff (file : Option Str) : Overlooked file ↔ (parseFile file).1 = false ∧
    (parseStatements (parseFile file).2).port.isSome ∧
      ∃ s ∈ (parseFile file).2, s.childBlock.isSome ∧ s.tokens.head? = some (str "router") := by
  cases file with
  | none => simp [Overlooked, parseFile]
  | some text =>
    simp only [Overlooked, Option.some_inj, exists_eq_left', parseFile]
    rw [← accepted_iff, Bool.not_eq_true, serviceable_iff, parseStatements_port]

/-- A rejected file makes `main` return if and only if the text does not have a port
and a router before the place where it breaks. Otherwise `main` serves, or a token is
read that is not there; and where no run does that, it serves. -/
theorem rejected_iff (file : Option Str) :
    (((parseFile file).1 = false → ∀ opens, Refused (serverMain opens file)) ↔ ¬ Overlooked file) ∧
      ((∀ opens, serverMain opens file ≠ .undefined) →
        (((parseFile file).1 = false → ∀ opens, ¬ Accepting (serverMain opens file)) ↔ ¬ Overlooked file)) := by
  have hrefused : ((parseFile file).1 = false → ∀ opens, Refused (serverMain opens file)) ↔ ¬ Overlooked file := by
    rw [overlooked_iff, not_and, refused_iff]
  refine ⟨hrefused, fun hdefined => ?_⟩
  rw [← hrefused]
  exact forall_congr' fun _ => forall_congr' fun opens => (refused_iff_not_accepting (hdefined opens)).symm

/-- The routes that are served. -/
def served : Outcome → Option RouteMap
  | .accepting server => some server.routes.routeMap
  | _ => none

theorem accepting_of_served {outcome : Outcome} {routeMap : RouteMap} (h : served outcome = some routeMap) :
    ∃ server, outcome = .accepting server ∧ server.routes.routeMap = routeMap := by
  cases outcome with
  | accepting server => exact ⟨server, rfl, Option.some.inj h⟩
  | parseFailure | exception | undefined => cases h

/-- A config file whose end is missing, with its last handler. -/
def cutConfig : Str := "port 80; router \x7b handler echo \x7b location /echo; \x7d handler static1 \x7b location"

/-- It is served all the same, as far as it goes. -/
theorem rejected_serves : (parseFile (some cutConfig)).1 = false ∧
    ∃ server, serverMain (fun _ => true) (some cutConfig) = .accepting server ∧
      server.routes.routeMap = [(str "/echo", str "echo")] :=
  ⟨by decide +kernel, accepting_of_served (by decide +kernel)⟩

end GittyUp.ServerMain
