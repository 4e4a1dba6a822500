import GittyUp.Http.Query
import GittyUp.StatusPage
/-!
# The rows of the status page

The page writes the URIs of the requests as they are, with only tags between two
rows. `unforged_iff`: the list of requests can be read back from the page just
when no URI has in it what stands between two rows, at a place to which the end
of its row or of the row before can be moved, and the `int` is the number of rows.
-/
open Lib GittyUp.Http

namespace GittyUp.Handlers

/-- A list of requests that can be recorded, with codes that are an `unsigned int`. -/
def History (l : List (Str × Nat)) : Prop := ∀ request ∈ l, RequestUri request.1 ∧ request.2 < 2 ^ 32

/-! ## What stands between two rows -/

/-- From the URI of a row with this code to the URI of the next. -/
def between (code : Nat) : Str := str "</td><td>" ++ (dec code ++ str "</td></tr><tr><td>")

/-- The rows, from the first URI on and with the beginning of one more row. -/
def cells (l : List (Str × Nat)) : Str := l.flatMap fun request => request.1 ++ between request.2

@[simp] theorem cells_cons (u : Str) (c : Nat) (l : List (Str × Nat)) : cells ((u, c) :: l) = u ++ (between c ++ cells l) := by
  rw [cells, List.flatMap_cons, List.append_assoc]
  rfl

theorem between_ne_nil (code : Nat) (X : Str) : between code ++ X ≠ [] := by
  unfold between
  exact List.cons_ne_nil _ _

theorem cells_append (l l' : List (Str × Nat)) : cells (l ++ l') = cells l ++ cells l' := List.flatMap_append

theorem rows_cells (l : List (Str × Nat)) :
    l.flatMap (fun request => tableRow request.1 (dec request.2)) ++ str "<tr><td>" = str "<tr><td>" ++ cells l := by
  have hrow : ∀ (u : Str) (c : Nat), tableRow u (dec c) ++ str "<tr><td>" = str "<tr><td>" ++ (u ++ between c) := by
    intro u c
    have h₁ : str "</td><td>" = str "</td>" ++ str "<td>" := str_append "</td>" "<td>"
    have h₂ : str "</td></tr><tr><td>" = str "</td></tr>" ++ str "<tr><td>" := str_append "</td></tr>" "<tr><td>"
    unfold tableRow between
    rw [h₁, h₂]
    simp only [List.append_assoc]
  induction l with
  | nil => rfl
  | cons request l ih =>
    rw [List.flatMap_cons, List.append_assoc, ih, ← List.append_assoc, hrow, List.append_assoc]
    rfl

/-- Two texts that begin alike do up to the shorter of the two. -/
theorem take_of_begins {a g y : Str} (h : a <+: g ++ y) : a.take g.length = g.take a.length := by
  obtain ⟨z, hz⟩ := h
  rcases Nat.le_total a.length g.length with hle | hle
  · have := congrArg (List.take a.length) hz
    rw [List.take_left, List.take_append_of_le_length hle] at this
    rw [List.take_of_length_le hle, ← this]
  · have := congrArg (List.take g.length) hz
    rw [List.take_left, List.take_append_of_le_length hle] at this
    rw [List.take_of_length_le hle, this]

/-- What stands between two rows does not begin again inside itself. -/
theorem between_overlap {c : Nat} {w g : Str} (h : between c = w ++ g) (hw : w ≠ []) (hg : g ≠ []) (y : Str) :
    ¬ str "</td><td>" <+: g ++ y := by
  have digit : ∀ {d : Str}, d ≠ [] → (∀ b ∈ d, isDigit b) → ∀ z, ¬ str "</td><td>" <+: d ++ z := by
    intro d hd hdigits z hp
    obtain ⟨b, d, rfl⟩ := List.exists_cons_of_ne_nil hd
    obtain ⟨t, ht⟩ := hp
    have hb : ('<' : Byte) = b := (List.cons.inj ht).1
    have := hdigits b List.mem_cons_self
    rw [← hb] at this
    exact absurd this (by decide)
  unfold between at h
  intro hp
  rcases List.append_eq_append_iff.1 h with ⟨w', rfl, e⟩ | ⟨g', ha, rfl⟩
  · rcases List.append_eq_append_iff.1 e with ⟨u, rfl, hb⟩ | ⟨g', hd, rfl⟩
    · -- in the tags behind the code
      have hsuffix : ∀ g ∈ (str "</td></tr><tr><td>").tails, g ≠ [] →
          (str "</td><td>").take g.length ≠ g.take (str "</td><td>").length := by decide
      exact hsuffix g ((List.mem_tails _ _).2 ⟨u, hb.symm⟩) hg (take_of_begins hp)
    · -- in the code
      rcases eq_or_ne g' [] with rfl | hg'
      · rw [List.nil_append] at hp
        exact absurd (take_of_begins hp) (by decide)
      · rw [List.append_assoc] at hp
        refine digit hg' (fun b hb => ?_) _ hp
        exact dec_digits c b (by rw [hd]; exact List.mem_append_right _ hb)
  · -- in the tags in front of the code
    rcases eq_or_ne g' [] with rfl | hg'
    · rw [List.nil_append, List.append_assoc] at hp
      exact digit (dec_ne_nil c) (dec_digits c) _ hp
    · have hsuffix : ∀ g ∈ (str "</td><td>").tails, g ≠ [] → g ≠ str "</td><td>" →
          (str "</td><td>").take g.length ≠ g.take (str "</td><td>").length := by decide
      rw [List.append_assoc] at hp
      refine hsuffix g' ((List.mem_tails _ _).2 ⟨w, ha.symm⟩) hg' ?_ (take_of_begins hp)
      rintro rfl
      exact hw (List.append_left_eq_self.1 ha.symm)

/-- The code and what is behind it can be read from what stands between two rows. -/
theorem between_inj {c d : Nat} {X Y : Str} (h : between c ++ X = between d ++ Y) : c = d ∧ X = Y := by
  -- the code ends at the first angle bracket
  have first : ∀ (k : Nat) (t : Str), cutAt (str "</td></tr><tr><td>") (dec k ++ (str "</td></tr><tr><td>" ++ t)) =
      some (dec k, t) := by
    intro k t
    refine cutAt_mem (fun hk => ?_) t
    exact absurd (dec_digits k _ hk) (by decide)
  unfold between at h
  simp only [List.append_assoc] at h
  have hcut := congrArg (cutAt (str "</td></tr><tr><td>")) (List.append_cancel_left h)
  rw [first, first] at hcut
  obtain ⟨hdec, hXY⟩ := Prod.mk.inj (Option.some.inj hcut)
  exact ⟨dec_injective hdec, hXY⟩

/-- The text up to the end of a URI, in two ways: the URIs are the same, or one has in
it what stands between two rows, behind the other. -/
theorem cells_cut {u v X Y : Str} {c d : Nat} (h : u ++ (between c ++ X) = v ++ (between d ++ Y)) :
    (u = v ∧ c = d ∧ X = Y) ∨ (∃ b, v = u ++ (between c ++ b) ∧ X = b ++ (between d ++ Y)) ∨
      ∃ b, u = v ++ (between d ++ b) ∧ Y = b ++ (between c ++ X) := by
  have inside : ∀ {w X Y : Str} {c d : Nat}, w ≠ [] → between c ++ X = w ++ (between d ++ Y) →
      ∃ b, w = between c ++ b ∧ X = b ++ (between d ++ Y) := by
    intro w X Y c d hw h
    rcases List.append_eq_append_iff.1 h with ⟨b, hb, e⟩ | ⟨g, hb, e⟩
    · exact ⟨b, hb, e⟩
    · rcases eq_or_ne g [] with rfl | hg
      · rw [List.append_nil] at hb
        exact ⟨[], by rw [List.append_nil, hb], e.symm⟩
      · refine absurd ⟨dec d ++ (str "</td></tr><tr><td>" ++ Y), ?_⟩ (between_overlap hb hw hg X)
        rw [← e]
        simp only [between, List.append_assoc]
  rcases List.append_eq_append_iff.1 h with ⟨w, hv, e⟩ | ⟨w, hu, e⟩
  · rcases eq_or_ne w [] with rfl | hw
    · exact .inl ⟨(hv.trans (List.append_nil u)).symm, between_inj e⟩
    · obtain ⟨b, rfl, hX⟩ := inside hw e
      exact .inr (.inl ⟨b, hv, hX⟩)
  · rcases eq_or_ne w [] with rfl | hw
    · obtain ⟨hc, hXY⟩ := between_inj e
      exact .inl ⟨hu.trans (List.append_nil v), hc.symm, hXY.symm⟩
    · obtain ⟨b, rfl, hY⟩ := inside hw e
      exact .inr (.inr ⟨b, hu, hY⟩)

/-! ## Rows that can be moved -/

/-- A URI behind another has in it what stands between two rows and more, or one in
front of another has something and then what stands between two rows. -/
def Movable (l : List (Str × Nat)) : Prop :=
  ∃ first x y a b w code z last, code < 2 ^ 32 ∧
    ((l = first ++ (x, a) :: (w ++ (between code ++ z), b) :: last ∧ z ≠ []) ∨
      (l = first ++ (w ++ (between code ++ z), a) :: (y, b) :: last ∧ w ≠ []))

theorem Movable.cons {l : List (Str × Nat)} (h : Movable l) (request : Str × Nat) : Movable (request :: l) := by
  obtain ⟨first, x, y, a, b, w, code, z, last, hcode, h⟩ := h
  refine ⟨request :: first, x, y, a, b, w, code, z, last, hcode, ?_⟩
  rcases h with ⟨rfl, hz⟩ | ⟨rfl, hw⟩
  · exact .inl ⟨rfl, hz⟩
  · exact .inr ⟨rfl, hw⟩

/-- A URI in a list behind a request. -/
theorem movable_behind {l : List (Str × Nat)} {w z : Str} {code b : Nat} (hcode : code < 2 ^ 32)
    (h : (w ++ (between code ++ z), b) ∈ l) (hz : z ≠ []) (request : Str × Nat) : Movable (request :: l) := by
  obtain ⟨first, last, rfl⟩ := List.append_of_mem h
  obtain ⟨init, x, hinit⟩ : ∃ init x, request :: first = init ++ [x] :=
    ⟨_, _, (List.dropLast_append_getLast (List.cons_ne_nil _ _)).symm⟩
  refine ⟨init, x.1, [], x.2, b, w, code, z, last, hcode, .inl ⟨?_, hz⟩⟩
  rw [← List.cons_append, hinit, List.append_assoc]
  rfl

/-- A text with more rows than a list has cuts one of the URIs of the list. -/
theorem cells_more {l l' : List (Str × Nat)} (h : cells l = cells l') (hlen : l.length < l'.length)
    (hcodes : ∀ request ∈ l', request.2 < 2 ^ 32) (htail : ∀ request ∈ l'.tail, request.1 ≠ []) :
    ∃ w code z b, code < 2 ^ 32 ∧ (w ++ (between code ++ z), b) ∈ l ∧ z ≠ [] := by
  induction l generalizing l' with
  | nil =>
    obtain ⟨⟨v, d⟩, t, rfl⟩ := List.exists_cons_of_length_pos hlen
    rw [cells_cons] at h
    exact absurd (List.append_eq_nil_iff.1 h.symm).2 (between_ne_nil d _)
  | cons request l ih =>
    obtain ⟨u, c⟩ := request
    obtain ⟨⟨v, d⟩, t, rfl⟩ := List.exists_cons_of_length_pos (Nat.zero_lt_of_lt hlen)
    rw [List.length_cons, List.length_cons, Nat.add_lt_add_iff_right] at hlen
    have hd := hcodes (v, d) List.mem_cons_self
    have hcodes' : ∀ request ∈ t, request.2 < 2 ^ 32 := fun request hr => hcodes request (List.mem_cons_of_mem _ hr)
    rw [List.tail_cons] at htail
    have rest : ∀ {t' : List (Str × Nat)}, cells l = cells t' → l.length < t'.length →
        (∀ request ∈ t', request.2 < 2 ^ 32) → (∀ request ∈ t'.tail, request.1 ≠ []) →
        ∃ w code z b, code < 2 ^ 32 ∧ (w ++ (between code ++ z), b) ∈ (u, c) :: l ∧ z ≠ [] := by
      intro t' h hlen hcodes htail
      obtain ⟨w, code, z, b, hcode, hmem, hz⟩ := ih h hlen hcodes htail
      exact ⟨w, code, z, b, hcode, List.mem_cons_of_mem _ hmem, hz⟩
    rw [cells_cons, cells_cons] at h
    rcases cells_cut h with ⟨-, -, e⟩ | ⟨z, -, e⟩ | ⟨z, hu, e⟩
    · exact rest e hlen hcodes' fun request hr => htail request (List.mem_of_mem_tail hr)
    · -- the row ends inside the first URI of the text
      rw [← cells_cons] at e
      refine rest e (by rw [List.length_cons]; omega) (fun request hr => ?_) htail
      rcases List.mem_cons.1 hr with rfl | hr
      · exact hd
      · exact hcodes' request hr
    · rcases eq_or_ne z [] with rfl | hz
      · -- the row ends with the first row of the text, and its tags are in the second
        obtain ⟨⟨v', d'⟩, t, rfl⟩ := List.exists_cons_of_length_pos (Nat.zero_lt_of_lt hlen)
        have hv' := htail (v', d') List.mem_cons_self
        rw [cells_cons] at e
        rcases cells_cut e with ⟨hnil, -, -⟩ | ⟨z, hnil, -⟩ | ⟨z, -, e'⟩
        · exact absurd hnil hv'
        · exact absurd (List.append_eq_nil_iff.1 hnil.symm).2 (between_ne_nil d' z)
        · rw [← cells_cons] at e'
          refine rest e' (by simpa using hlen) (fun request hr => ?_) fun request hr =>
            htail request (List.mem_cons_of_mem _ hr)
          rcases List.mem_cons.1 hr with rfl | hr
          · exact hcodes' (v', d') List.mem_cons_self
          · exact hcodes' request (List.mem_cons_of_mem _ hr)
      · rw [hu]
        exact ⟨v, d, z, c, hd, List.mem_cons_self, hz⟩

/-- Where no row can be moved, a list is read back from its rows. -/
theorem eq_of_cells {l l' : List (Str × Nat)} (hl' : ∀ request ∈ l', request.1 ≠ [] ∧ request.2 < 2 ^ 32)
    (hlen : l.length = l'.length) (h : cells l = cells l') (hm : ¬ Movable l) : l = l' := by
  induction l generalizing l' with
  | nil => exact (List.length_eq_zero_iff.1 hlen.symm).symm
  | cons request l ih =>
    obtain ⟨u, c⟩ := request
    obtain ⟨⟨v, d⟩, t, rfl⟩ := List.exists_cons_of_length_eq_add_one hlen.symm
    rw [List.length_cons, List.length_cons, Nat.add_right_cancel_iff] at hlen
    obtain ⟨hv, hd⟩ := hl' (v, d) List.mem_cons_self
    have ht : ∀ request ∈ t, request.1 ≠ [] ∧ request.2 < 2 ^ 32 := fun request hr => hl' request (List.mem_cons_of_mem _ hr)
    rw [cells_cons, cells_cons] at h
    rcases cells_cut h with ⟨rfl, rfl, e⟩ | ⟨z, -, e⟩ | ⟨z, hu, e⟩
    · rw [ih ht hlen e fun hl => hm (hl.cons _)]
    · -- the text has one row more for the requests behind the first
      rw [← cells_cons] at e
      obtain ⟨w, code, z', b, hcode, hmem, hz'⟩ := cells_more e (by rw [List.length_cons]; omega)
        (fun request hr => by
          rcases List.mem_cons.1 hr with rfl | hr
          · exact hd
          · exact (ht request hr).2) fun request hr => (ht request hr).1
      exact absurd (movable_behind hcode hmem hz' _) hm
    · cases l with
      | nil =>
        have hnil := List.length_eq_zero_iff.1 hlen.symm
        rw [hnil] at e
        exact absurd (List.append_eq_nil_iff.1 e.symm).2 (between_ne_nil c _)
      | cons second l =>
        rw [hu] at hm
        exact absurd ⟨[], [], second.1, c, second.2, v, d, z, l, hd, .inr ⟨rfl, hv⟩⟩ hm

theorem notEol_between (code : Nat) : ∀ c ∈ between code, notEol c := by
  have htags : ∀ c ∈ str "</td><td></td></tr><tr><td>", notEol c := by decide
  intro c hc
  unfold between at hc
  rcases List.mem_append.1 hc with hc | hc
  · exact htags c (List.mem_of_mem_take (i := 9) hc)
  · rcases List.mem_append.1 hc with hc | hc
    · have hdigit := dec_digits code c hc
      revert hdigit
      exact forall_byte (P := fun c => isDigit c → notEol c) (by decide +kernel) c
    · exact htags c (List.mem_of_mem_drop (i := 9) hc)

/-- A row that can be moved gives another list with the same rows. -/
theorem Movable.other {l : List (Str × Nat)} (hl : History l) (h : Movable l) :
    ∃ l', History l' ∧ l'.length = l.length ∧ cells l' = cells l ∧ l' ≠ l := by
  have hbetween := notEol_between
  -- the two rows in question, and the same text cut elsewhere
  have replace : ∀ {first last : List (Str × Nat)} {p q : Str × Nat} (p' q' : Str × Nat), l = first ++ p :: q :: last →
      cells [p', q'] = cells [p, q] → History [p', q'] → p' ≠ p →
      ∃ l', History l' ∧ l'.length = l.length ∧ cells l' = cells l ∧ l' ≠ l := by
    rintro first last p q p' q' rfl hcells hnew hne
    refine ⟨first ++ p' :: q' :: last, fun request hr => ?_, by simp, ?_, fun he => ?_⟩
    · rcases List.mem_append.1 hr with hr | hr
      · exact hl request (List.mem_append_left _ hr)
      · rcases List.mem_append.1 (show request ∈ [p', q'] ++ last from hr) with hr | hr
        · exact hnew request hr
        · exact hl request (by simp [hr])
    · have hcut : ∀ p q : Str × Nat, cells (first ++ p :: q :: last) = cells first ++ (cells [p, q] ++ cells last) := by
        intro p q
        rw [← cells_append, ← cells_append]
        rfl
      rw [hcut, hcut, hcells]
    · exact hne (List.cons.inj (List.append_cancel_left he)).1
  obtain ⟨first, x, y, a, b, w, code, z, last, hcode, ⟨rfl, hz⟩ | ⟨rfl, hw⟩⟩ := h
  · obtain ⟨hx, ha⟩ := hl (x, a) (by simp)
    obtain ⟨hu, hb⟩ := hl (w ++ (between code ++ z), b) (by simp)
    rw [requestUri_iff] at hx hu
    refine replace (x ++ (between a ++ w), code) (z, b) rfl (by simp) ?_ ?_
    · simp only [History, List.forall_mem_cons, requestUri_iff, List.mem_append, List.not_mem_nil, false_implies,
        implies_true, and_true]
      refine ⟨⟨⟨by simp [hx.1], ?_⟩, hcode⟩, ⟨hz, ?_⟩, hb⟩
      · rintro c (hc | hc | hc)
        · exact hx.2 c hc
        · exact hbetween a c hc
        · exact hu.2 c (by simp [hc])
      · exact fun c hc => hu.2 c (by simp [hc])
    · intro he
      exact between_ne_nil _ _ (List.append_right_eq_self.1 (congrArg Prod.fst he))
  · obtain ⟨hu, ha⟩ := hl (w ++ (between code ++ z), a) (by simp)
    obtain ⟨hy, hb⟩ := hl (y, b) (by simp)
    rw [requestUri_iff] at hy hu
    refine replace (w, code) (z ++ (between a ++ y), b) rfl (by simp) ?_ ?_
    · simp only [History, List.forall_mem_cons, requestUri_iff, List.mem_append, List.not_mem_nil, false_implies,
        implies_true, and_true]
      refine ⟨⟨⟨hw, ?_⟩, hcode⟩, ⟨by simp [hy.1], ?_⟩, hb⟩
      · exact fun c hc => hu.2 c (by simp [hc])
      · rintro c (hc | hc | hc)
        · exact hu.2 c (by simp [hc])
        · exact hbetween a c hc
        · exact hy.2 c hc
    · intro he
      exact between_ne_nil _ _ (List.append_right_eq_self.1 (congrArg Prod.fst he).symm)

/-- No row can be moved where no URI has an angle bracket. -/
theorem not_movable_plain {l : List (Str × Nat)} (h : ∀ request ∈ l, ('<' : Byte) ∉ request.1) : ¬ Movable l := by
  have hopen : ∀ (w : Str) (code : Nat) (z : Str), ('<' : Byte) ∈ w ++ (between code ++ z) := by
    intro w code z
    exact List.mem_append_right _ List.mem_cons_self
  rintro ⟨first, x, y, a, b, w, code, z, last, -, ⟨rfl, -⟩ | ⟨rfl, -⟩⟩
  · exact h (w ++ (between code ++ z), b) (by simp) (hopen w code z)
  · exact h (w ++ (between code ++ z), a) (by simp) (hopen w code z)

/-- A text with more rows than a list of two or more can only be one with a row that can be moved. -/
theorem movable_of_more {l l' : List (Str × Nat)} (h : cells l = cells l') (htwo : 2 ≤ l.length)
    (hlen : l.length < l'.length) (hl' : ∀ request ∈ l', request.1 ≠ [] ∧ request.2 < 2 ^ 32) : Movable l := by
  obtain ⟨⟨u, c⟩, l, rfl⟩ := List.exists_cons_of_length_pos (Nat.zero_lt_of_lt htwo)
  obtain ⟨⟨x, a⟩, l, rfl⟩ := List.exists_cons_of_length_pos (Nat.lt_of_succ_le (Nat.le_of_succ_le_succ htwo))
  obtain ⟨⟨v, d⟩, t, rfl⟩ := List.exists_cons_of_length_pos (Nat.zero_lt_of_lt hlen)
  obtain ⟨hv, hd⟩ := hl' (v, d) List.mem_cons_self
  have ht : ∀ request ∈ t, request.1 ≠ [] ∧ request.2 < 2 ^ 32 := fun request hr => hl' request (List.mem_cons_of_mem _ hr)
  simp only [List.length_cons] at hlen
  rw [cells_cons, cells_cons (u := v)] at h
  rcases cells_cut h with ⟨-, -, e⟩ | ⟨z, -, e⟩ | ⟨z, hu, -⟩
  · obtain ⟨w, code, z, b, hcode, hmem, hz⟩ := cells_more e (by simp only [List.length_cons]; omega)
      (fun request hr => (ht request hr).2) fun request hr => (ht request (List.mem_of_mem_tail hr)).1
    exact movable_behind hcode hmem hz _
  · -- the row ends inside the first URI of the text
    rw [← cells_cons] at e
    obtain ⟨w, code, z, b, hcode, hmem, hz⟩ := cells_more e (by simp only [List.length_cons]; omega)
      (fun request hr => by
        rcases List.mem_cons.1 hr with rfl | hr
        · exact hd
        · exact (ht request hr).2) fun request hr => (ht request hr).1
    exact movable_behind hcode hmem hz _
  · rw [hu]
    exact ⟨[], [], x, c, a, v, d, z, l, hd, .inr ⟨rfl, hv⟩⟩

/-! ## The page -/

/-- The text of the page, if the handler gets to write one. -/
def page (l : List (Str × Nat)) (prefixHandlerList : List (Str × Str)) : Option Str :=
  (statusResponse ⟨l, prefixHandlerList⟩).map Response.responseBody

/-- No other history has the page of this one. -/
def ReadBack (history : List (Str × Nat)) (prefixHandlerList : List (Str × Str)) : Prop :=
  ∀ text, page history prefixHandlerList = some text →
    ∀ other, History other → page other prefixHandlerList = some text → other = history

/-- In the URI, before its end, stand as many rows as the number does not tell from none. -/
def HoldsRows (uri : Str) : Prop :=
  ∃ rows rest, uri = cells rows ++ rest ∧ rest ≠ [] ∧ History rows ∧ rows ≠ [] ∧ rows.length % 2 ^ 32 = 0

structure Unforgeable (history : List (Str × Nat)) : Prop where
  /-- Without a request the number is 0, as it is again after 2^32 of them. -/
  some : history ≠ []
  counted : history.length < 2 ^ 31
  rows : ¬ Movable history
  alone : ∀ uri code, history = [(uri, code)] → ¬ HoldsRows uri

theorem page_eq (l : List (Str × Nat)) (prefixHandlerList : List (Str × Str)) : page l prefixHandlerList =
    if 2 ^ 31 ≤ l.length % 2 ^ 32 then none else some (statusBody (l.length % 2 ^ 32 : Nat) l prefixHandlerList) := by
  unfold page
  rw [statusResponse_eq]
  rcases Recorder.size_cases ⟨l, prefixHandlerList⟩ with ⟨hneg, hmod⟩ | ⟨hsize, hmod⟩
  · rw [if_pos hneg, if_pos hmod]
    rfl
  · rw [if_neg (by omega), if_neg (not_le.2 hmod), hsize]
    rfl

/-- The pages of the two show the same number and, unless it is 0, the same text for the rows. -/
def Alike (l l' : List (Str × Nat)) : Prop :=
  l'.length % 2 ^ 32 = l.length % 2 ^ 32 ∧ (l.length % 2 ^ 32 = 0 ∨ cells l' = cells l)

theorem page_same {l : List (Str × Nat)} {prefixHandlerList : List (Str × Str)} {text : Str}
    (h : page l prefixHandlerList = some text) (l' : List (Str × Nat)) :
    page l' prefixHandlerList = some text ↔ Alike l l' := by
  have hrows : cells l' = cells l ↔ l'.flatMap (fun request => tableRow request.1 (dec request.2)) =
      l.flatMap (fun request => tableRow request.1 (dec request.2)) := by
    rw [← List.append_right_inj (str "<tr><td>"), ← rows_cells, ← rows_cells, List.append_left_inj]
  unfold Alike
  rw [page_eq] at h ⊢
  generalize l.length % 2 ^ 32 = n at h ⊢
  generalize l'.length % 2 ^ 32 = n'
  split_ifs at h with hn
  obtain rfl := Option.some.inj h
  constructor
  · intro h'
    split_ifs at h'
    have hbody := Option.some.inj h'
    unfold statusBody at hbody
    have hnum : n' = n := by
      split_ifs at hbody
      · exact (pageText_cut hbody).1
      · exact (pageText_cut hbody).1
      · exact (pageText_cut hbody).1
      · exact (pageText_cut hbody).1
    refine ⟨hnum, ?_⟩
    subst hnum
    split_ifs at hbody with hz
    · exact .inl (Int.natCast_eq_zero.1 hz)
    · exact .inr (hrows.2 (List.append_cancel_right (List.append_cancel_left (pageText_cut hbody).2)))
  · rintro ⟨rfl, hsame⟩
    rw [if_neg hn, Option.some_inj]
    unfold statusBody
    split_ifs with hz
    · rfl
    · have hcells := hsame.resolve_left fun h => hz (Int.natCast_eq_zero.2 h)
      unfold pageText tables
      rw [hrows.1 hcells]

/-- More requests than the number can tell: 2^32 of the rows can be one. -/
theorem merge_rows {history : List (Str × Nat)} (h : History history) (hlen : 2 ^ 32 < history.length) :
    ∃ other, History other ∧ other.length + 2 ^ 32 = history.length ∧ cells other = cells history := by
  obtain ⟨first, rest, rfl, hfirst⟩ : ∃ first rest, history = first ++ rest ∧ first.length = 2 ^ 32 :=
    ⟨_, _, (List.take_append_drop (2 ^ 32) history).symm, List.length_take_of_le hlen.le⟩
  rw [List.length_append, hfirst] at hlen
  obtain ⟨⟨u, c⟩, rest, rfl⟩ := List.exists_cons_of_length_pos (show 0 < rest.length by omega)
  have hlines : ∀ l : List (Str × Nat), History l → ∀ b ∈ cells l, notEol b := by
    intro l hl b hb
    obtain ⟨request, hr, hb⟩ := List.mem_flatMap.1 hb
    rcases List.mem_append.1 hb with hb | hb
    · exact ((requestUri_iff _).1 (hl request hr).1).2 b hb
    · exact notEol_between _ b hb
  obtain ⟨hu, hc⟩ := h (u, c) (by simp)
  rw [requestUri_iff] at hu
  refine ⟨(cells first ++ u, c) :: rest, fun request hr => ?_, ?_, ?_⟩
  · rcases List.mem_cons.1 hr with rfl | hr
    · refine ⟨(requestUri_iff _).2 ⟨by simp [hu.1], fun b hb => ?_⟩, hc⟩
      rcases List.mem_append.1 hb with hb | hb
      · exact hlines first (fun request hr => h request (List.mem_append_left _ hr)) b hb
      · exact hu.2 b hb
    · exact h request (by simp [hr])
  · simp only [List.length_append, List.length_cons, hfirst]
    omega
  · rw [cells_append, cells_cons, cells_cons, List.append_assoc]

/-! ## Histories with the same page -/

section Alike
variable {history other : List (Str × Nat)}

/-- No requests, and 2^32 of them. -/
theorem alike_nil : ∃ other, History other ∧ Alike [] other ∧ other ≠ [] := by
  have hx : RequestUri (str "x") := (requestUri_iff _).2 (by decide)
  refine ⟨List.replicate (2 ^ 32) (str "x", 200), fun request hr => ?_, ⟨?_, .inl rfl⟩, fun hnil => ?_⟩
  · rw [List.eq_of_mem_replicate hr]
    exact ⟨hx, by omega⟩
  · rw [List.length_replicate]
    rfl
  · have hlen := congrArg List.length hnil
    rw [List.length_replicate] at hlen
    cases hlen

/-- A number that is not that of the rows. -/
theorem alike_many (h : History history) (hlen : 2 ^ 31 ≤ history.length) (hno : ¬ 2 ^ 31 ≤ history.length % 2 ^ 32) :
    ∃ other, History other ∧ Alike history other ∧ other ≠ history := by
  by_cases hzero : history.length % 2 ^ 32 = 0
  · refine ⟨[], nofun, ⟨hzero.symm, .inl hzero⟩, ?_⟩
    rintro rfl
    simp at hlen
  · obtain ⟨other, hother, hlen', hcells⟩ := merge_rows h (by omega)
    refine ⟨other, hother, ⟨by omega, .inr hcells⟩, ?_⟩
    rintro rfl
    omega

/-- One request with so many rows in its URI. -/
theorem alike_single {uri : Str} {code : Nat} (h : History [(uri, code)]) (hholds : HoldsRows uri) :
    ∃ other, History other ∧ Alike [(uri, code)] other ∧ other ≠ [(uri, code)] := by
  obtain ⟨rows, rest, rfl, hrest, hrows, hne, hlen⟩ := hholds
  obtain ⟨huri, hcode⟩ := h _ (List.mem_singleton_self _)
  rw [requestUri_iff] at huri
  have hlast : RequestUri rest := (requestUri_iff _).2 ⟨hrest, fun b hb => huri.2 b (List.mem_append_right _ hb)⟩
  refine ⟨rows ++ [(rest, code)], fun request hr => ?_, ⟨?_, .inr ?_⟩, fun heq => ?_⟩
  · rcases List.mem_append.1 hr with hr | hr
    · exact hrows request hr
    · rw [List.mem_singleton.1 hr]
      exact ⟨hlast, hcode⟩
  · rw [List.length_append, List.length_singleton, List.length_singleton]
    omega
  · rw [cells_append, cells_cons, cells_cons, List.append_assoc]
  · have hlen' := congrArg List.length heq
    rw [List.length_append, List.length_singleton, List.length_singleton, Nat.add_eq_right] at hlen'
    exact hne (List.length_eq_zero_iff.1 hlen')

/-- More rows than one, with the text of one, are in its URI but for the last. -/
theorem holdsRows_of_cells {uri : Str} {code : Nat} (hother : History other) (hcells : cells other = cells [(uri, code)])
    (hlen : other.length ≠ 1) (hmod : other.length % 2 ^ 32 = 1) : HoldsRows uri := by
  rcases List.eq_nil_or_concat other with rfl | ⟨rows, ⟨rest, d⟩, rfl⟩
  · simp at hmod
  rw [List.concat_eq_append] at hmod hlen hcells hother
  rw [cells_append, cells_cons, cells_cons, ← List.append_assoc] at hcells
  rw [List.length_append, List.length_singleton] at hmod hlen
  have hrest : RequestUri rest := (hother (rest, d) (by simp)).1
  rcases cells_cut hcells with ⟨huri, -, -⟩ | ⟨b, -, e⟩ | ⟨b, -, e⟩
  · refine ⟨rows, rest, huri.symm, ((requestUri_iff _).1 hrest).1,
      fun request hr => hother request (List.mem_append_left _ hr), ?_, by omega⟩
    rintro rfl
    exact hlen rfl
  · exact absurd (List.append_eq_nil_iff.1 e.symm).2 (between_ne_nil _ _)
  · exact absurd (List.append_eq_nil_iff.1 e.symm).2 (between_ne_nil _ _)

/-- If no row can be moved and the number is that of the rows, no other history has the page. -/
theorem Unforgeable.eq_of_alike (hu : Unforgeable history) (hother : History other) (h : Alike history other) :
    other = history := by
  obtain ⟨hmod, hcells⟩ := h
  have hsmall := hu.counted
  have hpos := List.length_pos_iff.2 hu.some
  have hcells := hcells.resolve_left (by omega)
  have hrequests : ∀ request ∈ other, request.1 ≠ [] ∧ request.2 < 2 ^ 32 := fun request hr =>
    ⟨((requestUri_iff _).1 (hother request hr).1).1, (hother request hr).2⟩
  by_cases hlen : other.length = history.length
  · exact (eq_of_cells hrequests hlen.symm hcells.symm hu.rows).symm
  -- there are 2^32 rows more
  exfalso
  by_cases htwo : 2 ≤ history.length
  · exact hu.rows (movable_of_more hcells.symm htwo (by omega) hrequests)
  · obtain ⟨⟨uri, code⟩, rfl⟩ := List.length_eq_one_iff.1 (show history.length = 1 by omega)
    exact hu.alone uri code rfl (holdsRows_of_cells hother hcells hlen hmod)

end Alike

/-- A history can be read back from its page if and only if there is no page, for the
number is below zero as an `int`, or no row can be moved and the number is that of the rows. -/
theorem unforged_iff {history : List (Str × Nat)} (h : History history) (prefixHandlerList : List (Str × Str)) :
    ReadBack history prefixHandlerList ↔ 2 ^ 31 ≤ history.length % 2 ^ 32 ∨ Unforgeable history := by
  constructor
  · intro hread
    by_cases hno : 2 ^ 31 ≤ history.length % 2 ^ 32
    · exact .inl hno
    -- no other history has this page
    have hpage : page history prefixHandlerList = some _ := (page_eq _ _).trans (if_neg hno)
    have same : ¬ ∃ other, History other ∧ Alike history other ∧ other ≠ history := by
      rintro ⟨other, hother, halike, hne⟩
      exact hne (hread _ hpage other hother ((page_same hpage other).2 halike))
    refine .inr ⟨?_, ?_, fun hm => ?_, ?_⟩
    · rintro rfl
      exact same alike_nil
    · by_contra hlen
      exact same (alike_many h (by omega) hno)
    · obtain ⟨other, hother, hlen, hcells, hne⟩ := hm.other h
      exact same ⟨other, hother, ⟨by rw [hlen], .inr hcells⟩, hne⟩
    · rintro uri code rfl hholds
      exact same (alike_single h hholds)
  · rintro (hno | hu) text hpage other hother hother'
    · rw [page_eq, if_pos hno] at hpage
      cases hpage
    · exact hu.eq_of_alike hother ((page_same hpage other).1 hother')

/-- Two requests with plain URIs. -/
theorem unforged_plain : History [(str "/health", 200), (str "/echo", 200)] ∧
    ReadBack [(str "/health", 200), (str "/echo", 200)] [] := by
  have h : History [(str "/health", 200), (str "/echo", 200)] := by
    simp only [History, requestUri_iff]
    decide
  exact ⟨h, (unforged_iff h []).2 (.inr ⟨by decide, by decide, not_movable_plain (by decide), nofun⟩)⟩

/-- Two requests of which the second has a row in its URI, and two of which the first has. -/
theorem page_forged : ∃ l l', History l ∧ History l' ∧ (page l []).isSome ∧ page l [] = page l' [] ∧ l ≠ l' := by
  refine ⟨[(str "x", 200), (str "y</td><td>200</td></tr><tr><td>z", 200)],
    [(str "x</td><td>200</td></tr><tr><td>y", 200), (str "z", 200)], ?_, ?_, ?_, ?_, by decide⟩
  · simp only [History, requestUri_iff]
    decide
  · simp only [History, requestUri_iff]
    decide
  · rfl
  · have hpage : page [(str "x", 200), (str "y</td><td>200</td></tr><tr><td>z", 200)] [] = some _ := page_eq _ _
    exact hpage.trans ((page_same hpage _).2 ⟨rfl, .inr (by decide)⟩).symm

end GittyUp.Handlers
