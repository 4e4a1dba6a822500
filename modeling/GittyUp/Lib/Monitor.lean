import GittyUp.Lib.Locks
import Mathlib.Order.Basic
/-!
# Data that a lock protects

A part of what is shared that code changes only while it holds a lock. From lock
to unlock the part belongs to one thread, and to the others it seems not to
change: `Monitor.sound` goes from what each method does alone to all the
interleavings of all the threads.
-/

namespace Lib.Locks
variable {L S P : Type} [DecidableEq L] [Preorder P]

/-- A lock, and the part of the shared data that it protects. While the lock is
free the part is stable, and what it is when the lock is given back is above
what it was. `inv` is kept by every instruction, by the last stable part. -/
structure Monitor (L S P : Type) [Preorder P] where
  lock : L
  part : S → P
  stable : P → Prop
  inv : S → P → Prop
  inv_mono : ∀ {s u v}, u ≤ v → inv s u → inv s v

namespace Monitor
variable (m : Monitor L S P)

/-- Code that keeps to the monitor: behind a time when the part was `v` and stable,
and if it holds the lock, with the part that it has made since. -/
def Keeps : Code L S → P → Option P → Prop
  | .done, _, now => now = none
  | .lock l k, v, none =>
    if l = m.lock then ∀ u, v ≤ u → m.stable u → Keeps k u (some u) else Keeps k v none
  | .lock l k, v, some now => l ≠ m.lock ∧ Keeps k v (some now)
  | .unlock l k, v, none => l ≠ m.lock ∧ Keeps k v none
  | .unlock l k, v, some now =>
    if l = m.lock then m.stable now ∧ v ≤ now ∧ Keeps k now none else Keeps k v (some now)
  | .act f k, v, none => ∀ s u, v ≤ u → m.stable u → m.inv s u →
      m.part (f s) = m.part s ∧ m.inv (f s) u ∧ Keeps (k s) u none
  | .act f k, v, some now => ∀ s, m.part s = now → m.inv s v → m.inv (f s) v ∧ Keeps (k s) v (some (m.part (f s)))

/-! Rules for code. -/

section Rules
variable {m} {l : L} {k : Code L S} {v now : P} {at' : Option P}

/-- Behind a later time, too. -/
theorem Keeps.mono {u : P} (h : m.Keeps k v none) (hu : v ≤ u) : m.Keeps k u none := by
  induction k with
  | done => exact h
  | lock l k ih =>
    unfold Keeps at h ⊢
    split_ifs at h ⊢ with hl
    · exact fun w hw => h w (hu.trans hw)
    · exact ih h
  | unlock l k ih => exact ⟨h.1, ih h.2⟩
  | act f k _ => exact fun s w hw => h s w (hu.trans hw)

/-- Other locks do not matter. -/
theorem keeps_lock_other (hl : l ≠ m.lock) (hk : m.Keeps k v at') : m.Keeps (.lock l k) v at' := by
  cases at' with
  | none =>
    unfold Keeps
    rwa [if_neg hl]
  | some now => exact ⟨hl, hk⟩

theorem keeps_unlock_other (hl : l ≠ m.lock) (hk : m.Keeps k v at') : m.Keeps (.unlock l k) v at' := by
  cases at' with
  | none => exact ⟨hl, hk⟩
  | some now =>
    unfold Keeps
    rwa [if_neg hl]

/-- With the lock comes a stable part. -/
theorem keeps_enter (hk : ∀ u, v ≤ u → m.stable u → m.Keeps k u (some u)) : m.Keeps (.lock m.lock k) v none := by
  unfold Keeps
  rwa [if_pos rfl]

/-- The lock is given back with one. -/
theorem keeps_leave (hnow : m.stable now) (hv : v ≤ now) (hk : m.Keeps k now none) :
    m.Keeps (.unlock m.lock k) v (some now) := by
  unfold Keeps
  rw [if_pos rfl]
  exact ⟨hnow, hv, hk⟩

end Rules

/-- What is known of a thread: the one with the lock has made the part what it is. -/
structure Knows (s : S) (u : P) (t : Thread L S) : Prop where
  nodup : t.held.Nodup
  inside : m.lock ∈ t.held → m.Keeps t.code u (some (m.part s))
  outside : m.lock ∉ t.held → ∃ v, v ≤ u ∧ m.Keeps t.code v none

/-- The lock has one holder at most. -/
def Apart (t t' : Thread L S) : Prop := ¬ (m.lock ∈ t.held ∧ m.lock ∈ t'.held)

/-- What holds of every pool, by the last stable part. -/
structure Sound (p : Pool L S) (u : P) : Prop where
  stable : m.stable u
  inv : m.inv p.shared u
  knows : ∀ t ∈ p.threads, m.Knows p.shared u t
  apart : p.threads.Pairwise m.Apart
  free : (∀ t ∈ p.threads, m.lock ∉ t.held) → m.part p.shared = u

variable {m} {methods : Code L S → Prop} {guard : List (Thread L S) → Thread L S → Thread L S → Prop}
  {others : List (Thread L S)} {s s' : S} {u u' : P} {t t' : Thread L S}

/-- Another thread goes on knowing what it knew. -/
theorem Knows.mono (h : m.Knows s u t) (hu : u ≤ u') (hin : m.lock ∈ t.held → u' = u ∧ m.part s' = m.part s) :
    m.Knows s' u' t := by
  refine ⟨h.nodup, fun hl => ?_, fun hl => ?_⟩
  · obtain ⟨rfl, hpart⟩ := hin hl
    rw [hpart]
    exact h.inside hl
  · obtain ⟨v, hv, hk⟩ := h.outside hl
    exact ⟨v, hv.trans hu, hk⟩

/-- What one instruction does. -/
structure Moved (m : Monitor L S P) (others : List (Thread L S)) (s' : S) (u u' : P) (t t' : Thread L S) (s : S) :
    Prop where
  le : u ≤ u'
  stable : m.stable u'
  inv : m.inv s' u'
  knows : m.Knows s' u' t'
  /-- A part that another thread holds stays. -/
  rest : (∃ o ∈ others, m.lock ∈ o.held) → u' = u ∧ m.part s' = m.part s
  apart : ∀ o ∈ others, m.Apart t' o
  free : (∀ o ∈ others, m.lock ∉ o.held) → m.lock ∉ t'.held → m.part s' = u'

theorem Move.moved (hm : ∀ c, methods c → ∀ v, m.stable v → m.Keeps c v none) (h : Move methods others s t s' t')
    (hstable : m.stable u) (hinv : m.inv s u) (ht : m.Knows s u t) (hapart : ∀ o ∈ others, m.Apart t o)
    (hfree : (∀ o ∈ others, m.lock ∉ o.held) → m.lock ∉ t.held → m.part s = u) :
    ∃ u', Moved m others s' u u' t t' s := by
  cases h with
  | @call h c hc =>
    have hout : m.lock ∉ h := fun hl => absurd (ht.inside hl) nofun
    refine ⟨u, le_rfl, hstable, hinv, ⟨ht.nodup, fun hl => absurd hl hout, fun _ => ⟨u, le_rfl, hm c hc u hstable⟩⟩,
      fun _ => ⟨rfl, rfl⟩, hapart, hfree⟩
  | @lock h l k hl hothers =>
    by_cases hlock : l = m.lock
    · subst hlock
      obtain ⟨v, hv, hk⟩ := ht.outside hl
      unfold Keeps at hk
      rw [if_pos rfl] at hk
      have hpart := hfree hothers hl
      refine ⟨u, le_rfl, hstable, hinv, ⟨List.nodup_cons.2 ⟨hl, ht.nodup⟩, fun _ => ?_, fun hn => ?_⟩,
        fun _ => ⟨rfl, rfl⟩, fun o ho hboth => hothers o ho hboth.2, fun _ hn => ?_⟩
      · rw [hpart]
        exact hk u hv hstable
      · exact absurd List.mem_cons_self hn
      · exact absurd List.mem_cons_self hn
    · have hmem : m.lock ∈ l :: h ↔ m.lock ∈ h := by
        rw [List.mem_cons]
        exact or_iff_right (Ne.symm hlock)
      refine ⟨u, le_rfl, hstable, hinv, ⟨List.nodup_cons.2 ⟨hl, ht.nodup⟩, fun hn => ?_, fun hn => ?_⟩,
        fun _ => ⟨rfl, rfl⟩, fun o ho hboth => hapart o ho ⟨hmem.1 hboth.1, hboth.2⟩, fun ho hn => ?_⟩
      · exact (ht.inside (hmem.1 hn)).2
      · obtain ⟨v, hv, hk⟩ := ht.outside (mt hmem.2 hn)
        unfold Keeps at hk
        rw [if_neg hlock] at hk
        exact ⟨v, hv, hk⟩
      · exact hfree ho (mt hmem.2 hn)
  | @unlock h l k =>
    by_cases hlock : l = m.lock
    · subst hlock
      have hin : m.lock ∈ h := by
        by_contra hn
        obtain ⟨v, -, hk⟩ := ht.outside hn
        exact hk.1 rfl
      have hk := ht.inside hin
      unfold Keeps at hk
      rw [if_pos rfl] at hk
      obtain ⟨hstable', hle, hk⟩ := hk
      have hout : m.lock ∉ h.erase m.lock := ht.nodup.not_mem_erase
      refine ⟨m.part s, hle, hstable', m.inv_mono hle hinv,
        ⟨ht.nodup.erase _, fun hn => absurd hn hout, fun _ => ⟨_, le_rfl, hk⟩⟩, fun ⟨o, ho, hheld⟩ => ?_,
        fun o ho hboth => hout hboth.1, fun _ _ => rfl⟩
      exact absurd ⟨hin, hheld⟩ (hapart o ho)
    · have hmem : m.lock ∈ h.erase l ↔ m.lock ∈ h := List.mem_erase_of_ne (Ne.symm hlock)
      refine ⟨u, le_rfl, hstable, hinv, ⟨ht.nodup.erase _, fun hn => ?_, fun hn => ?_⟩, fun _ => ⟨rfl, rfl⟩,
        fun o ho hboth => hapart o ho ⟨hmem.1 hboth.1, hboth.2⟩, fun ho hn => hfree ho (mt hmem.2 hn)⟩
      · have hk := ht.inside (hmem.1 hn)
        unfold Keeps at hk
        rwa [if_neg hlock] at hk
      · obtain ⟨v, hv, hk⟩ := ht.outside (mt hmem.2 hn)
        exact ⟨v, hv, hk.2⟩
  | @act h f k =>
    by_cases hin : m.lock ∈ h
    · obtain ⟨hinv', hk⟩ := ht.inside hin s rfl hinv
      exact ⟨u, le_rfl, hstable, hinv', ⟨ht.nodup, fun _ => hk, fun hn => absurd hin hn⟩,
        fun ⟨o, ho, hheld⟩ => absurd ⟨hin, hheld⟩ (hapart o ho), hapart, fun _ hn => absurd hin hn⟩
    · obtain ⟨v, hv, hk⟩ := ht.outside hin
      obtain ⟨hpart, hinv', hk⟩ := hk s u hv hstable hinv
      exact ⟨u, le_rfl, hstable, hinv', ⟨ht.nodup, fun hn => absurd hn hin, fun _ => ⟨u, le_rfl, hk⟩⟩,
        fun _ => ⟨rfl, hpart⟩, hapart, fun ho _ => hpart.trans (hfree ho hin)⟩

theorem Sound.step (hm : ∀ c, methods c → ∀ v, m.stable v → m.Keeps c v none) {p p' : Pool L S} (h : m.Sound p u)
    (hs : Step methods guard p p') : ∃ u', u ≤ u' ∧ m.Sound p' u' := by
  cases hs with
  | @move s ts t ts' s' t' hmove _ =>
    obtain ⟨hstable, hinv, hknows, hapart, hfree⟩ := h
    simp only [List.pairwise_append, List.pairwise_cons, List.mem_cons] at hapart
    obtain ⟨h₁, ⟨h₂, h₃⟩, h₄⟩ := hapart
    have hothers : ∀ o ∈ ts ++ ts', m.Apart t o := by
      intro o ho
      rcases List.mem_append.1 ho with ho | ho
      · exact fun hboth => h₄ o ho t (.inl rfl) hboth.symm
      · exact h₂ o ho
    have hall : ∀ {P : Thread L S → Prop} {x : Thread L S}, P x → (∀ o ∈ ts ++ ts', P o) → ∀ o ∈ ts ++ x :: ts', P o := by
      intro P x hx ho o hmem
      rcases List.mem_append.1 hmem with hmem | hmem
      · exact ho o (List.mem_append_left _ hmem)
      · rcases List.mem_cons.1 hmem with rfl | hmem
        · exact hx
        · exact ho o (List.mem_append_right _ hmem)
    have hmem : ∀ {x o : Thread L S}, o ∈ ts ++ ts' → o ∈ ts ++ x :: ts' := by
      intro x o ho
      rcases List.mem_append.1 ho with ho | ho
      · exact List.mem_append_left _ ho
      · exact List.mem_append_right _ (List.mem_cons_of_mem _ ho)
    obtain ⟨u', hmoved⟩ := Move.moved hm hmove hstable hinv (hknows t (by simp)) hothers
      fun ho ht => hfree (hall ht ho)
    refine ⟨u', hmoved.le, hmoved.stable, hmoved.inv, hall hmoved.knows fun o ho => ?_, ?_, fun hn => ?_⟩
    · exact (hknows o (hmem ho)).mono hmoved.le fun hheld => hmoved.rest ⟨o, ho, hheld⟩
    · simp only [List.pairwise_append, List.pairwise_cons, List.mem_cons]
      refine ⟨h₁, ⟨fun o ho => hmoved.apart o (List.mem_append_right _ ho), h₃⟩, fun o ho x hx => ?_⟩
      rcases hx with rfl | hx
      · exact fun hboth => hmoved.apart o (List.mem_append_left _ ho) hboth.symm
      · exact h₄ o ho x (.inr hx)
    · exact hmoved.free (fun o ho => hn o (hmem ho)) (hn t' (by simp))

/-- Every reachable pool keeps to the monitor, if every method does alone. -/
theorem sound (hm : ∀ c, methods c → ∀ v, m.stable v → m.Keeps c v none) {n : ℕ} {s₀ : S} (hstable : m.stable (m.part s₀))
    (hinv : m.inv s₀ (m.part s₀)) {p : Pool L S} (h : Reachable methods guard n s₀ p) : ∃ u, m.Sound p u := by
  induction h with
  | init =>
    refine ⟨_, hstable, hinv, fun t ht => ?_, List.pairwise_replicate.2 (.inr fun hboth => nomatch hboth.1), fun _ => rfl⟩
    rw [List.eq_of_mem_replicate ht]
    exact ⟨.nil, nofun, fun _ => ⟨_, le_rfl, rfl⟩⟩
  | step _ hs ih =>
    obtain ⟨u, hsound⟩ := ih
    obtain ⟨u', -, hsound'⟩ := hsound.step hm hs
    exact ⟨u', hsound'⟩

end Monitor

end Lib.Locks
