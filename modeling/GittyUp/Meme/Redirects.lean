import GittyUp.Meme.Search
/-!
# Redirections

`GET` below `/memes/view/` and `/memes/manage/` is answered with the address of a
page. `handle_request` passes what is behind `view/` to `redirect_request` as it is,
where it can be taken for one of the names of the other pages: `kept_iff`.
-/
open Lib Lib.Sql GittyUp.Http GittyUp.SqlLib

namespace GittyUp.Meme

/-- Whatever the version, the rest of the request and the database, `GET` with this
target is answered with 303 and this location. -/
def Redirected (target location : Str) : Prop :=
  ∀ (stale : Str → Str → Str) (major minor : Byte) (rest : Str) (uuid : MemeId)
    (engine : Db → Call → Reply → Db → Prop) (db : Db) (x : Except StdException Response) (db' : Db),
    isDigit major → isDigit minor →
    Runs engine db (serve uuid.text (parseRequest stale (targetText (str "GET") target major minor rest))) x db' →
    ∃ r, x = .ok r ∧ r.statusCode = 303 ∧ r.responseHeaders = [(str "Location", location)]

/-! ## The dispatch -/

theorem getCommand_viewer {x : Str} (hx : x ≠ []) : getCommand (str "view/" ++ x) = .settled (.ok (redirectRequest x)) := by
  have htake : (str "view/" ++ x).take 5 = str "view/" := List.take_left' rfl
  have hdrop : (str "view/" ++ x).drop 5 = x := List.drop_left' rfl
  have hlen : (str "view/" ++ x).length > 5 := by
    have := List.length_pos_of_ne_nil hx
    rw [List.length_append, show (str "view/").length = 5 from rfl]
    omega
  have hne : ∀ w : Str, w.take 5 ≠ str "view/" ∨ w.length = 5 → str "view/" ++ x ≠ w := by
    rintro _ (hw | hw) rfl
    · exact hw htake
    · omega
  have hmanage : (str "view/" ++ x).take 7 ≠ str "manage/" := by
    intro h
    have := congrArg (List.take 5) h
    rw [List.take_take, show min 5 7 = 5 from rfl, htake] at this
    exact absurd this (by decide)
  unfold getCommand
  rw [if_neg (not_or.2 ⟨hne _ (.inl (by decide)), hne _ (.inl (by decide))⟩),
    if_neg (not_or.2 ⟨hne _ (.inl (by decide)), hne _ (.inr rfl)⟩), if_neg fun h => hmanage h.2, if_pos ⟨hlen, htake⟩,
    hdrop]

theorem getCommand_manager {x : Str} (hx : x ≠ []) :
    getCommand (str "manage/" ++ x) = .settled (.ok (redirectRequest (str "manage/" ++ x))) := by
  have htake : (str "manage/" ++ x).take 7 = str "manage/" := List.take_left' rfl
  have hlen : (str "manage/" ++ x).length > 7 := by
    have := List.length_pos_of_ne_nil hx
    rw [List.length_append, show (str "manage/").length = 7 from rfl]
    omega
  have hne : ∀ w : Str, w.take 7 ≠ str "manage/" → str "manage/" ++ x ≠ w := by
    rintro _ hw rfl
    exact hw htake
  unfold getCommand
  rw [if_neg (not_or.2 ⟨hne _ (by decide), hne _ (by decide)⟩), if_neg (not_or.2 ⟨hne _ (by decide), hne _ (by decide)⟩),
    if_pos ⟨hlen, htake⟩]

/-! ## The page -/

/-- The address that `redirect_request` answers with. -/
def pageAddress (location : Str) : Str :=
  if location = str "create" then "/web/memes/create.html"
  else if location = str "list" then "/web/memes/list.html"
  else if location.take 7 = str "manage/" then str "/web/memes/manage.html?id=" ++ location.drop 7
  else str "/web/memes/view.html?id=" ++ location

theorem redirectRequest_eq (location : Str) : redirectRequest location = redirectTo (pageAddress location) := by
  unfold redirectRequest pageAddress
  split_ifs
  · rfl
  · rfl
  · rfl
  · rfl

theorem pageAddress_manage (x : Str) : pageAddress (str "manage/" ++ x) = str "/web/memes/manage.html?id=" ++ x := by
  have htake : (str "manage/" ++ x).take 7 = str "manage/" := List.take_left' rfl
  have hdrop : (str "manage/" ++ x).drop 7 = x := List.drop_left' rfl
  have hne : ∀ w : Str, w.take 7 ≠ str "manage/" → str "manage/" ++ x ≠ w := by
    rintro _ hw rfl
    exact hw htake
  unfold pageAddress
  rw [if_neg (hne _ (by decide)), if_neg (hne _ (by decide)), if_pos htake, hdrop]

/-- The viewer is reached with any id that is none of the internal names. -/
theorem pageAddress_view_iff (x : Str) : pageAddress x = str "/web/memes/view.html?id=" ++ x ↔
    x ≠ str "create" ∧ x ≠ str "list" ∧ ¬ str "manage/" <+: x := by
  have hbegins : str "manage/" <+: x ↔ x.take 7 = str "manage/" := by
    rw [List.prefix_iff_eq_take]
    exact eq_comm
  rw [hbegins]
  unfold pageAddress
  split_ifs with h₁ h₂ h₃
  · subst h₁
    decide
  · subst h₂
    decide
  · refine iff_of_false (fun h => ?_) fun h => h.2.2 h₃
    -- the name of the page
    have hname : some ('m' : Byte) = some ('v' : Byte) := congrArg (·[11]?) h
    exact absurd hname (by decide)
  · exact iff_of_true rfl ⟨h₁, h₂, h₃⟩

/-! ## The answer -/

/-- A redirection is settled without a look at the table. -/
theorem redirected_iff {w location : Str} (hw : ∀ c ∈ w, notEol c ∧ c ≠ '?')
    (hc : getCommand w = .settled (.ok (redirectRequest location))) (address : Str) :
    Redirected (str "/memes/" ++ w) address ↔ pageAddress location = address := by
  have hserve : ∀ (stale : Str → Str → Str) (major minor : Byte) (rest : Str) (uuid : MemeId), isDigit major → isDigit minor →
      serve uuid.text (parseRequest stale (targetText (str "GET") (str "/memes/" ++ w) major minor rest)) =
        .call Statement.opening.call fun _ => .call Statement.creating.call fun _ =>
          .ret (redirectTo (pageAddress location)) := by
    intro stale major minor rest uuid hj hn
    obtain ⟨hmethod, hcheck⟩ := parseRequest_memes stale hj hn rest hw
    rw [serve_eq, command_get hmethod, hcheck, hc, redirectRequest_eq]
    rfl
  constructor
  · intro h
    have hrun : Runs (computes like) []
        (serve sampleId.text (parseRequest (fun _ q => q) (targetText (str "GET") (str "/memes/" ++ w) '1' '1' []))) _ _ :=
      runs_eval (fun _ _ => rfl) _ _
    obtain ⟨r, hr, -, hlocation⟩ := h _ _ _ _ _ _ _ _ _ (by decide) (by decide) hrun
    rw [hserve _ _ _ _ _ (by decide) (by decide)] at hr
    cases hr
    exact (Prod.mk.inj (List.cons.inj hlocation).1).2
  · rintro rfl stale major minor rest uuid engine db x db' hj hn h
    rw [hserve stale major minor rest uuid hj hn] at h
    obtain ⟨_, _, -, h⟩ := runs_call.1 h
    obtain ⟨_, _, -, h⟩ := runs_call.1 h
    obtain ⟨rfl, -⟩ := runs_ret.1 h
    exact ⟨_, rfl, rfl, rfl⟩

/-- Both redirections keep the id. -/
def Kept (x : Str) : Prop :=
  Redirected (str "/memes/view/" ++ x) (str "/web/memes/view.html?id=" ++ x) ∧
    Redirected (str "/memes/manage/" ++ x) (str "/web/memes/manage.html?id=" ++ x)

/-- The viewer and the manager get the id if and only if it is not one of the names
that `redirect_request` takes for another page. -/
theorem kept_iff {x : Str} (hx : x ≠ []) (hline : ∀ c ∈ x, notEol c ∧ c ≠ '?') :
    Kept x ↔ x ≠ str "create" ∧ x ≠ str "list" ∧ ¬ str "manage/" <+: x := by
  have hlead : ∀ c ∈ str "view/manage/", notEol c ∧ c ≠ '?' := by decide
  have hview : ∀ c ∈ str "view/" ++ x, notEol c ∧ c ≠ '?' := by
    intro c hc
    rcases List.mem_append.1 hc with hc | hc
    · exact hlead c (List.mem_of_mem_take (i := 5) hc)
    · exact hline c hc
  have hmanage : ∀ c ∈ str "manage/" ++ x, notEol c ∧ c ≠ '?' := by
    intro c hc
    rcases List.mem_append.1 hc with hc | hc
    · exact hlead c (List.mem_of_mem_drop (i := 5) hc)
    · exact hline c hc
  have h₁ := redirected_iff hview (getCommand_viewer hx) (str "/web/memes/view.html?id=" ++ x)
  have h₂ := redirected_iff hmanage (getCommand_manager hx) (str "/web/memes/manage.html?id=" ++ x)
  unfold Kept
  rw [show str "/memes/view/" ++ x = str "/memes/" ++ (str "view/" ++ x) from rfl,
    show str "/memes/manage/" ++ x = str "/memes/" ++ (str "manage/" ++ x) from rfl, h₁, h₂, pageAddress_view_iff,
    and_iff_left (pageAddress_manage x)]

theorem kept_sample : Kept sampleId.text := by
  have h : ∀ c ∈ sampleId.text, notEol c ∧ c ≠ '?' := by decide
  exact (kept_iff (by decide) h).2 (by decide)

/-- The viewer of a meme with this id is the page that creates one. -/
theorem redirected_create : Redirected "/memes/view/create" "/web/memes/create.html" ∧ ¬ Kept "create" := by
  have hline : ∀ c ∈ str "view/" ++ str "create", notEol c ∧ c ≠ '?' := by decide
  have h := redirected_iff hline (getCommand_viewer (by decide))
  refine ⟨(h _).2 rfl, fun hkept => ?_⟩
  exact absurd ((h _).1 hkept.1) (by decide)

end GittyUp.Meme
