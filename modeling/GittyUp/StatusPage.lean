import GittyUp.Handlers
import GittyUp.Lib.Cut
/-!
# The status page

The status handler asks the recorder for the number of requests, for their list, and
for the prefixes. Other threads record requests in between, and `consistent_iff` says
when the page is still that of one moment.
-/
open Lib GittyUp.Http GittyUp.Meme

namespace GittyUp.Handlers

open RecorderCall

/-! ## What a page shows -/

/-- A page that shows a number of requests, the row for no request or not, and these rows. -/
def Shows (page : Response) (numRequest : Int) (noRequest : Bool) (rows : List (Str × Nat)) : Prop :=
  ∃ prefixHandlerList, page = respond 200 "text/html" (pageText numRequest noRequest rows prefixHandlerList)

/-- The page of one moment: the number is that of the rows, and the rows are recorded first. -/
def Consistent (recorded : List (Str × Nat)) (outcome : Except Nat Response) : Prop :=
  ∃ page numRequest noRequest rows, outcome = .ok page ∧ Shows page numRequest noRequest rows ∧
    numRequest = rows.length ∧ (noRequest = true ↔ rows = []) ∧ rows <+: recorded

/-- Two pages with the same text show the same number and have the same tables. -/
theorem pageText_cut {n n' : Nat} {noRequest noRequest' : Bool} {rows rows' : List (Str × Nat)} {pre pre' : List (Str × Str)}
    (h : pageText n noRequest rows pre = pageText n' noRequest' rows' pre') :
    n = n' ∧ tables noRequest rows pre = tables noRequest' rows' pre' := by
  -- the number ends at the first angle bracket
  have first : ∀ (k : Nat) (t : Str), cutAt (str "</p>") (decInt k ++ (str "</p>" ++ t)) = some (dec k, t) := by
    intro k t
    refine cutAt_mem (fun hk => ?_) t
    exact absurd (dec_digits k _ hk) (by decide)
  have hcut := congrArg (cutAt (str "</p>")) (List.append_cancel_left h)
  rw [first, first] at hcut
  obtain ⟨hdec, ht⟩ := Prod.mk.inj (Option.some.inj hcut)
  exact ⟨dec_injective hdec, List.append_cancel_left ht⟩

/-- When the list has been copied behind the number, the page is consistent just when
no request is shown or nothing has been recorded in between. -/
theorem consistent_page_iff {numRequest : Nat} {urlResponseList recorded : List (Str × Nat)}
    (hn : numRequest ≤ urlResponseList.length) (hl : urlResponseList <+: recorded) (prefixHandlerList : List (Str × Str)) :
    Consistent recorded (.ok (respond 200 "text/html" (statusBody numRequest urlResponseList prefixHandlerList))) ↔
      numRequest = 0 ∨ numRequest = urlResponseList.length := by
  constructor
  · rintro ⟨page, _, noRequest, rows, hpage, ⟨pre, rfl⟩, rfl, hno, hrows⟩
    by_cases hz : numRequest = 0
    · exact .inl hz
    have hz' : (numRequest : Int) ≠ 0 := by omega
    have hbody := congrArg Response.responseBody (Except.ok.inj hpage)
    rw [statusBody, if_neg hz'] at hbody
    obtain ⟨rfl, htables⟩ := pageText_cut hbody
    have hne : noRequest = false := by
      cases noRequest with
      | false => rfl
      | true => exact absurd (by rw [hno.1 rfl]; rfl) hz
    subst hne
    obtain ⟨more, hmore⟩ := List.prefix_of_prefix_length_le hrows hl hn
    unfold tables at htables
    rw [← hmore, List.flatMap_append, List.append_assoc] at htables
    have hrest := List.append_cancel_left (List.append_cancel_left htables)
    -- a row does not begin as the end of the table does
    cases more with
    | nil => exact .inr (by rw [← hmore, List.append_nil])
    | cons row more =>
      have hsecond : some ('t' : Byte) = some ('/' : Byte) := congrArg (·[1]?) hrest
      exact absurd hsecond (by decide)
  · intro h
    by_cases hz : numRequest = 0
    · subst hz
      exact ⟨_, 0, true, [], rfl, ⟨prefixHandlerList, rfl⟩, rfl, by simp, List.nil_prefix⟩
    · have hlen := h.resolve_left hz
      have hz' : (numRequest : Int) ≠ 0 := by omega
      refine ⟨_, numRequest, false, urlResponseList, rfl, ⟨prefixHandlerList, ?_⟩, by rw [hlen], ?_, hl⟩
      · rw [statusBody, if_neg hz']
      · simp only [Bool.false_eq_true, false_iff]
        rintro rfl
        exact hz hlen

/-! ## Other threads -/

/-- The other threads record requests. -/
def Records (op : RecorderCall) : Prop := ∃ url responseCode, op = .requestRecorder url responseCode

/-- The handler among threads that record requests: all the calls in order, and its outcome. -/
def Serving (before : Recorder) (log : List (RecorderCall × Answer)) (outcome : Except Nat Response) (after : Recorder) :
    Prop :=
  Among Recorder.Answers Records before handleStatusRequest log outcome after

theorem others_record {r r' : Recorder} {log : List (RecorderCall × Answer)} (h : Others Recorder.Answers Records r log r') :
    (∀ c ∈ log, Records c.1) ∧ ∃ new, r'.urlResponseList = r.urlResponseList ++ new ∧ new.length = log.length := by
  induction h with
  | none => exact ⟨by simp, [], by simp, rfl⟩
  | @call r op a r₁ log r₂ ho hs _ ih =>
    obtain ⟨hlog, new, hnew, hlen⟩ := ih
    refine ⟨?_, ?_⟩
    · intro c hc
      rcases List.mem_cons.1 hc with rfl | hc
      · exact ho
      · exact hlog c hc
    · obtain ⟨url, responseCode, rfl⟩ := ho
      cases hs
      exact ⟨(url, responseCode) :: new, by simpa [Recorder.requestRecorder] using hnew, by rw [List.length_cons, hlen]; rfl⟩

/-- The requests recorded before the number is read. -/
def recordedFirst (log : List (RecorderCall × Answer)) : Nat :=
  (log.takeWhile fun c => c.1 ≠ getUrlResponseListSize).length

/-- Those recorded from there until the list is copied. -/
def recordedBetween (log : List (RecorderCall × Answer)) : Nat :=
  ((log.dropWhile fun c => c.1 ≠ getUrlResponseListSize).tail.takeWhile fun c => c.1 ≠ getUrlResponseList).length

/-- No request is recorded between the number and the list, where the `int` is their
number; or the `int` is 0. -/
def Undisturbed (before : Nat) (log : List (RecorderCall × Answer)) : Prop :=
  (before + recordedFirst log) % 2 ^ 32 = 0 ∨ before + recordedFirst log < 2 ^ 31 ∧ recordedBetween log = 0

theorem recordedFirst_eq {first rest : List (RecorderCall × Answer)} (h : ∀ c ∈ first, Records c.1) (a : Answer) :
    recordedFirst (first ++ (getUrlResponseListSize, a) :: rest) = first.length := by
  unfold recordedFirst
  rw [List.takeWhile_append_of_pos, List.takeWhile_cons_of_neg (by simp), List.append_nil]
  intro c hc
  obtain ⟨url, responseCode, hc⟩ := h c hc
  simp [hc]

theorem recordedBetween_eq {first between rest : List (RecorderCall × Answer)} (h : ∀ c ∈ first, Records c.1)
    (hb : ∀ c ∈ between, Records c.1) (a b : Answer) :
    recordedBetween (first ++ (getUrlResponseListSize, a) :: (between ++ (getUrlResponseList, b) :: rest)) =
      between.length := by
  unfold recordedBetween
  rw [List.dropWhile_append_of_pos, List.dropWhile_cons_of_neg (by simp), List.tail_cons, List.takeWhile_append_of_pos,
    List.takeWhile_cons_of_neg (by simp), List.append_nil]
  · intro c hc
    obtain ⟨url, responseCode, hc⟩ := hb c hc
    simp [hc]
  · intro c hc
    obtain ⟨url, responseCode, hc⟩ := h c hc
    simp [hc]

/-- Whatever the other threads record, the page is that of one moment if and only if
nothing is recorded between the reading of a number other than 0 and the copying of the list. -/
theorem consistent_iff {before after : Recorder} {log : List (RecorderCall × Answer)} {outcome : Except Nat Response}
    (h : Serving before log outcome after) :
    Consistent after.urlResponseList outcome ↔ Undisturbed before.urlResponseList.length log := by
  unfold Serving at h
  rw [handleStatusRequest_eq] at h
  obtain ⟨first, r₁, _, _, rest, rfl, hfirst, hs, h⟩ := among_call.1 h
  obtain ⟨rfl, rfl⟩ := Recorder.answers_size.1 hs
  obtain ⟨hrec₁, new₁, hnew₁, hlen₁⟩ := others_record hfirst
  have hcount : r₁.urlResponseList.length = before.urlResponseList.length + first.length := by
    rw [hnew₁, List.length_append, hlen₁]
  unfold Undisturbed
  rw [recordedFirst_eq hrec₁, ← hcount]
  have hmod := Int.bmod_def r₁.urlResponseList.length (2 ^ 32)
  split_ifs at h with hneg
  · -- the process has ended
    obtain ⟨rfl, -⟩ := among_throw.1 h
    refine iff_of_false ?_ ?_
    · rintro ⟨_, _, _, _, hpage, -⟩
      cases hpage
    · simp only at hneg
      unfold Recorder.size at hneg
      omega
  · obtain ⟨between, r₂, _, _, rest, rfl, hbetween, hs, h⟩ := among_call.1 h
    obtain ⟨rfl, rfl⟩ := Prod.mk.inj hs
    obtain ⟨hrec₂, new₂, hnew₂, hlen₂⟩ := others_record hbetween
    obtain ⟨third, r₃, _, _, last, rfl, hthird, hs, h⟩ := among_call.1 h
    obtain ⟨rfl, rfl⟩ := Prod.mk.inj hs
    obtain ⟨-, new₃, hnew₃, -⟩ := others_record hthird
    obtain ⟨rfl, hlast⟩ := among_ret.1 h
    obtain ⟨-, new₄, hnew₄, -⟩ := others_record hlast
    have hcopied : r₂.urlResponseList.length = r₁.urlResponseList.length + between.length := by
      rw [hnew₂, List.length_append, hlen₂]
    have hbegins : r₂.urlResponseList <+: after.urlResponseList := by
      rw [hnew₄, hnew₃, List.append_assoc]
      exact List.prefix_append _ _
    rw [recordedBetween_eq hrec₁ hrec₂]
    simp only at hneg ⊢
    unfold Recorder.size at hneg ⊢
    generalize hsize : Int.bmod r₁.urlResponseList.length (2 ^ 32) = size at hneg hmod ⊢
    obtain ⟨n, rfl⟩ := Int.eq_ofNat_of_zero_le (not_lt.1 hneg)
    rw [consistent_page_iff (by omega) hbegins]
    omega

/-! Runs with given requests. -/

def Recorder.record (r : Recorder) (new : List (Str × Nat)) : Recorder :=
  { r with urlResponseList := r.urlResponseList ++ new }

theorem exists_others (r : Recorder) (new : List (Str × Nat)) :
    ∃ log, Others Recorder.Answers Records r log (r.record new) ∧ log.length = new.length := by
  induction new generalizing r with
  | nil => exact ⟨[], by simpa [Recorder.record] using Others.none, rfl⟩
  | cons request new ih =>
    obtain ⟨log, h, hlen⟩ := ih (r.requestRecorder request.1 request.2)
    have hr : r.record (request :: new) = (r.requestRecorder request.1 request.2).record new := by
      simp [Recorder.record, Recorder.requestRecorder]
    rw [hr]
    exact ⟨_, .call ⟨_, _, rfl⟩ rfl h, by rw [List.length_cons, hlen]; rfl⟩

/-- Any requests can be recorded before the number is read, from there until the list
is copied, and at the end. -/
theorem exists_serving (r : Recorder) (first between last : List (Str × Nat))
    (h : r.urlResponseList.length + first.length < 2 ^ 31) : ∃ log,
      recordedFirst log = first.length ∧ recordedBetween log = between.length ∧
      Serving r log (.ok (respond 200 "text/html" (statusBody (r.record first).urlResponseList.length
        ((r.record first).record between).urlResponseList r.prefixHandlerList)))
        (((r.record first).record between).record last) := by
  obtain ⟨log₁, h₁, hlen₁⟩ := exists_others r first
  obtain ⟨log₂, h₂, hlen₂⟩ := exists_others (r.record first) between
  obtain ⟨log₃, h₃, -⟩ := exists_others ((r.record first).record between) last
  have hcount : (r.record first).urlResponseList.length = r.urlResponseList.length + first.length := List.length_append
  have hsize : (r.record first).size = (r.record first).urlResponseList.length := Recorder.size_eq (hcount ▸ h)
  have hasked : (r.record first).Answers getUrlResponseListSize { size := (r.record first).size } (r.record first) :=
    Recorder.answer_size _
  have hrun : Serving r
      (log₁ ++ (getUrlResponseListSize, { size := (r.record first).size }) ::
        (log₂ ++ (getUrlResponseList, { urlResponseList := ((r.record first).record between).urlResponseList }) ::
          ([] ++ (getPrefixHandlerList, { prefixHandlerList := r.prefixHandlerList }) :: log₃)))
      (.ok (respond 200 "text/html" (statusBody (r.record first).urlResponseList.length
        ((r.record first).record between).urlResponseList r.prefixHandlerList)))
      (((r.record first).record between).record last) := by
    unfold Serving
    rw [handleStatusRequest_eq]
    refine among_call.2 ⟨_, _, _, _, _, rfl, h₁, hasked, ?_⟩
    rw [if_neg (by simp only [hsize]; omega)]
    refine among_call.2 ⟨_, _, _, _, _, rfl, h₂, rfl, ?_⟩
    refine among_call.2 ⟨_, _, _, _, _, rfl, .none, rfl, ?_⟩
    exact among_ret.2 ⟨by rw [hsize], h₃⟩
  have hrec₁ := (others_record h₁).1
  have hrec₂ := (others_record h₂).1
  refine ⟨_, ?_, ?_, hrun⟩
  · rw [recordedFirst_eq hrec₁, hlen₁]
  · rw [recordedBetween_eq hrec₁ hrec₂, hlen₂]

/-- A request recorded before the number is read and one behind the list. -/
theorem consistent_health : ∃ log outcome after, Serving ⟨[], []⟩ log outcome after ∧
    after.urlResponseList = [(str "/health", 200), (str "/echo", 200)] ∧ Consistent after.urlResponseList outcome := by
  obtain ⟨log, hfirst, hbetween, h⟩ := exists_serving ⟨[], []⟩ [(str "/health", 200)] [] [(str "/echo", 200)] (by decide)
  refine ⟨log, _, _, h, rfl, (consistent_iff h).2 (.inr ⟨?_, hbetween⟩)⟩
  rw [hfirst]
  decide

/-- A request is recorded between the two: the page says one request, and lists two. -/
theorem inconsistent_echo : ∃ log page after, Serving ⟨[], []⟩ log (.ok page) after ∧
    Shows page 1 false [(str "/health", 200), (str "/echo", 200)] ∧ ¬ Consistent after.urlResponseList (.ok page) := by
  obtain ⟨log, -, -, h⟩ := exists_serving ⟨[], []⟩ [(str "/health", 200)] [(str "/echo", 200)] [] (by decide)
  refine ⟨log, _, _, h, ⟨[], rfl⟩, fun hc => ?_⟩
  rcases (consistent_page_iff (by decide) (by decide) _).1 hc with hz | hz
  · exact absurd hz (by decide)
  · exact absurd hz (by decide)

end GittyUp.Handlers
