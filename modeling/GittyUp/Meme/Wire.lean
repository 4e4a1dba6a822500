import GittyUp.Meme.Store
/-!
# Lists of a reachable store

The encoder of the lists writes no escapes: it depends on what the store lets
in. For every table that requests can lead to, the pages read the list back.
-/
open Lib Lib.Sql GittyUp.Http GittyUp.SqlLib

namespace GittyUp.Meme

/-- The lists are answered with status 200 as JSON. -/
def listAnswer (body : Str) : Response := respond 200 (getMimeType ".json") body

theorem WireFormat.perm {body : Str} {ms ms' : List Record} (h : WireFormat body ms) (hp : ms.Perm ms') :
    WireFormat body ms' := by
  obtain ⟨listed, hdecode, hperm, hsorted⟩ := h
  exact ⟨listed, hdecode, hperm.trans hp, hsorted⟩

/-- With few views, the list of any table that requests lead to, in whatever
order their statements come, is read by the pages as the records of the table;
the list of a search is read as the rows that `search_record` returned. -/
theorem lists_read {like : Str → Str → Bool} {engine : Db → Call → Reply → Db → Prop} (hd : Documented like engine)
    {p : Pool Db Call Reply StdException Response Input} (h : Reachable (memeSystem engine anyOrder) (memeDb []) p)
    (hviews : FewViews p.world) {i : Input} (hget : i.1.method = str "GET") {out : Except StdException Response} {db' : Db}
    (hrun : Runs engine p.world.store (serve i.2.text i.1) out db') : ∃ ms, p.world.store = memeDb ms ∧
      (checkUri i.1.uri = [] ∨ checkUri i.1.uri = str "/" →
        ∃ body, out = .ok (listAnswer body) ∧ WireFormat body ms) ∧
      (∀ query, query ≠ [] → checkUri i.1.uri = str "search/" ++ query →
        (∃ e, uriDecode query = .error e ∧ out = .error e) ∨
        ∃ q found body, uriDecode query = .ok q ∧
          Runs engine p.world.store (searchRecord tableName [(fieldName 2, q), (fieldName 3, q)])
            (.ok (found.map Record.row)) p.world.store ∧
          found.Perm (ms.filter (Statement.matching like q)) ∧
          out = .ok (listAnswer body) ∧ WireFormat body found) := by
  obtain ⟨⟨ms, M, hinv⟩, -⟩ := reachable_inv hd atMost (reachable_few h hviews)
  rw [hinv.store] at hrun ⊢
  have hrun := runs_command hd i hrun
  rw [command_get hget] at hrun
  refine ⟨ms, rfl, fun hlist => ?_, fun query hq hsearch => ?_⟩
  · have hc : getCommand (checkUri i.1.uri) = .list := by
      rcases hlist with h | h
      · rw [h]
        rfl
      · rw [h]
        rfl
    rw [hc] at hrun
    obtain ⟨r, hf, hrun⟩ := runs_collect hd .all rfl hrun _ id
    obtain ⟨-, body, found, hout, -, hperm, hwire⟩ :=
      runs_answerList hinv.represents (fun _ _ hx => hinv.small hx) hf hrun
    rw [List.filter_true] at hperm
    exact ⟨body, hout, hwire.perm hperm⟩
  · rw [hsearch, getCommand_search hq] at hrun
    cases hdecode : uriDecode query with
    | error e =>
      rw [hdecode] at hrun
      exact .inl ⟨e, rfl, (runs_throw.1 hrun).1⟩
    | ok q =>
      right
      rw [hdecode] at hrun
      obtain ⟨rows, db₁, hquery, hlist⟩ | ⟨e, hquery, -⟩ := runs_bind.1 hrun
      · obtain ⟨r, hf, hrows, rfl⟩ := runs_query hd (.search q) rfl hquery id
        cases hrows
        obtain ⟨-, body, found, hout, hfound, hperm, hwire⟩ :=
          runs_answerList hinv.represents (fun _ _ hx => hinv.small hx) hf hlist
        rw [hfound] at hquery
        exact ⟨q, found, body, rfl, hquery, hperm, hout, hwire⟩
      · obtain ⟨r, -, hrows, -⟩ := runs_query hd (.search q) rfl hquery id
        cases hrows

def secondCreation : Input := (ask "POST" "/memes" "memeSelect=simply.jpg&topCaption=B&bottomCaption=x", secondId)

/-- Two memes, of which the second is viewed. -/
def viewedOnce : List (Event Input) :=
  [.arrive secondCreation, .call 0, .call 0, .arrive creation, .call 1, .call 0, .call 0, .call 1, .call 1, .call 1,
   .arrive (viewing firstId), .call 2, .call 2, .call 2, .call 2, .call 2, .call 2]

/-- What is stored then. -/
def storedThen : List Record :=
  [⟨secondId.text, "simply.jpg", "B", "x", "0"⟩, ⟨sampleId.text, "a.jpg", "b c", "d!", "1"⟩]

theorem lists_read_viewed : ∃ p body, (memeReplay fun _ _ _ _ => true).run (memeDb []) viewedOnce = some p ∧
    p.world.store = memeDb storedThen ∧
    ((serve firstId.text (ask "GET" "/memes" [])).eval (textEngine fun _ _ => true) p.world.store).1 =
      .ok (listAnswer body) ∧ WireFormat body storedThen := by
  have h : ((memeReplay fun _ _ _ _ => true).run (memeDb []) viewedOnce).any
      (fun p => p.world.log.length = 14 ∧ p.world.store = memeDb storedThen) = true := by decide +kernel
  obtain ⟨p, hp, hstate⟩ := (Option.any_eq_true _ _).1 h
  obtain ⟨hlog, hstore⟩ := of_decide_eq_true hstate
  have hreach := (memeReplay_fits fun _ _ _ _ _ => trivial).reachable hp
  have hviews : FewViews p.world := fewViews_of_length (by rw [hlog]; decide)
  obtain ⟨ms, hms, hlist, -⟩ := lists_read (documented_computes _) hreach hviews
    (i := (ask "GET" "/memes" [], firstId)) (by decide +kernel) (runs_eval (fun _ _ => rfl) _ _)
  cases memeDb_injective (hms.symm.trans hstore)
  obtain ⟨body, hbody, hwire⟩ := hlist (.inl (by decide +kernel))
  exact ⟨p, body, hp, hstore, hbody, hwire⟩

end GittyUp.Meme
