import ApApps.Lib.Frames

/- A channel that several writers share, each sending its frame in parts.

   A `Writer` has a frame and the number of its symbols that have been sent. `Orderly` says
   that what has been sent is whole frames, one after the other, and after them the
   beginning of the one frame that has been begun. A writer may go on with its frame as
   long as nobody else has begun one (`orderly_send`, `orderly_finish`); as long as all
   writers keep to that, the channel carries the beginning of a sequence of whole frames
   (`Orderly.framed`), and a receiver that cuts the stream into frames finds these and
   nothing else (`Framed.cut`). -/
namespace Channel

variable {α : Type}

/-- A writer: its frame, of which the first `sent` symbols are on the channel. -/
structure Writer (α : Type) where
  frame : List α
  sent : Nat

/-- The writers in the middle of their frames, or at the end. -/
def begun (writers : List (Writer α)) : List (Writer α) := writers.filter fun p => 0 < p.sent

/-- The beginning of a sequence of whole frames. -/
def Framed (F : List α → Prop) (sent : List α) : Prop :=
  ∃ frames : List (List α), (∀ f ∈ frames, F f) ∧ sent <+: frames.flatten

/-- Whole frames, and then the beginning of the one that has been begun, if there is one. -/
def Orderly (F : List α → Prop) (sent : List α) (writers : List (Writer α)) : Prop :=
  ∃ frames : List (List α), (∀ f ∈ frames, F f) ∧
    (begun writers = [] ∧ sent = frames.flatten ∨
      ∃ p, begun writers = [p] ∧ sent = frames.flatten ++ p.frame.take p.sent)

variable {F : List α → Prop} {sent : List α} {p : Writer α} {writers writers' : List (Writer α)}

theorem begun_cons_zero (f : List α) (writers : List (Writer α)) : begun (⟨f, 0⟩ :: writers) = begun writers := by
  simp [begun]

theorem begun_cons_pos (h : 0 < p.sent) (writers : List (Writer α)) : begun (p :: writers) = p :: begun writers := by
  simp [begun, h]

theorem framed_nil : Framed F [] := ⟨[], by simp, List.nil_prefix⟩

theorem orderly_nil : Orderly F [] ([] : List (Writer α)) := ⟨[], by simp, .inl ⟨rfl, rfl⟩⟩

/-- In which order the writers are listed says nothing. -/
theorem Orderly.perm (h : Orderly F sent writers) (hperm : writers.Perm writers') : Orderly F sent writers' := by
  obtain ⟨frames, hF, hcase⟩ := h
  have hbegun : (begun writers).Perm (begun writers') := hperm.filter _
  refine ⟨frames, hF, ?_⟩
  rcases hcase with ⟨hnone, hsent⟩ | ⟨p, hone, hsent⟩
  · rw [hnone] at hbegun
    exact .inl ⟨hbegun.nil_eq.symm, hsent⟩
  · rw [hone] at hbegun
    exact .inr ⟨p, (List.singleton_perm.mp hbegun).symm, hsent⟩

/-- A writer with a frame it has not begun may come and go. -/
theorem orderly_cons_zero (f : List α) : Orderly F sent (⟨f, 0⟩ :: writers) ↔ Orderly F sent writers := by
  simp only [Orderly, begun_cons_zero]

/-- What has been sent is a beginning of whole frames, if the frames begun are frames. -/
theorem Orderly.framed (h : Orderly F sent writers) (hF : ∀ p ∈ writers, F p.frame) : Framed F sent := by
  obtain ⟨frames, hframes, ⟨-, hsent⟩ | ⟨p, hone, hsent⟩⟩ := h
  · refine ⟨frames, hframes, ?_⟩
    rw [hsent]
  · have hmem : p ∈ writers := by
      have hin : p ∈ begun writers := by simp [hone]
      exact List.mem_of_mem_filter hin
    refine ⟨frames ++ [p.frame], ?_, ?_⟩
    · intro f hf
      rcases List.mem_append.mp hf with hf | hf
      · exact hframes f hf
      · rw [List.mem_singleton.mp hf]
        exact hF p hmem
    · rw [hsent, List.flatten_append, List.prefix_append_right_inj]
      simpa using List.take_prefix p.sent p.frame

/-- When no other frame has been begun, the channel ends with what `p` has sent. -/
theorem Orderly.alone (h : Orderly F sent (p :: writers)) (halone : begun writers = []) :
    ∃ frames : List (List α), (∀ f ∈ frames, F f) ∧ sent = frames.flatten ++ p.frame.take p.sent := by
  obtain ⟨frames, hframes, hcase⟩ := h
  refine ⟨frames, hframes, ?_⟩
  by_cases hpos : 0 < p.sent
  · rw [begun_cons_pos hpos, halone] at hcase
    rcases hcase with ⟨hnone, -⟩ | ⟨q, hone, hsent⟩
    · cases hnone
    · cases hone
      exact hsent
  · have hzero : p.sent = 0 := by omega
    have hbegun : begun (p :: writers) = [] := by
      rw [← halone]
      simp [begun, hzero]
    rw [hbegun] at hcase
    rcases hcase with ⟨-, hsent⟩ | ⟨q, hone, -⟩
    · rw [hsent, hzero, List.take_zero, List.append_nil]
    · cases hone

/-- **A writer sends another `n` symbols of its frame**, while no other frame is begun. -/
theorem orderly_send (h : Orderly F sent (p :: writers)) (halone : begun writers = []) (n : Nat) :
    Orderly F (sent ++ (p.frame.drop p.sent).take n) (⟨p.frame, p.sent + n⟩ :: writers) := by
  obtain ⟨frames, hframes, hsent⟩ := h.alone halone
  have hnext : sent ++ (p.frame.drop p.sent).take n = frames.flatten ++ p.frame.take (p.sent + n) := by
    rw [hsent, List.append_assoc, List.take_add]
  refine ⟨frames, hframes, ?_⟩
  by_cases hpos : 0 < p.sent + n
  · refine .inr ⟨⟨p.frame, p.sent + n⟩, ?_, hnext⟩
    rw [begun_cons_pos (p := ⟨p.frame, p.sent + n⟩) hpos, halone]
  · have hzero : p.sent + n = 0 := by omega
    refine .inl ⟨?_, ?_⟩
    · rw [hzero, begun_cons_zero, halone]
    · rw [hnext, hzero, List.take_zero, List.append_nil]

/-- **A writer sends the rest of its frame**, while no other frame is begun. -/
theorem orderly_finish (h : Orderly F sent (p :: writers)) (halone : begun writers = []) (hp : F p.frame) :
    Orderly F (sent ++ p.frame.drop p.sent) writers := by
  obtain ⟨frames, hframes, hsent⟩ := h.alone halone
  refine ⟨frames ++ [p.frame], ?_, .inl ⟨halone, ?_⟩⟩
  · intro f hf
    rcases List.mem_append.mp hf with hf | hf
    · exact hframes f hf
    · rw [List.mem_singleton.mp hf]
      exact hp
  · calc sent ++ p.frame.drop p.sent
        = frames.flatten ++ (p.frame.take p.sent ++ p.frame.drop p.sent) := by
          rw [hsent, List.append_assoc]
      _ = (frames ++ [p.frame]).flatten := by simp

/-- A frame that turns out to have been sent already, or to be empty, is left. -/
theorem orderly_leave (h : Orderly F sent (p :: writers)) (hdone : p.frame.length ≤ p.sent) (hp : F p.frame) :
    Orderly F sent writers := by
  by_cases hpos : 0 < p.sent
  · -- it is the one that has been begun, so no other is
    have halone : begun writers = [] := by
      obtain ⟨frames, -, hcase⟩ := h
      rw [begun_cons_pos hpos] at hcase
      rcases hcase with ⟨hnone, -⟩ | ⟨q, hone, -⟩
      · cases hnone
      · exact (List.cons.inj hone).2
    have hrest := orderly_finish h halone hp
    rwa [List.drop_eq_nil_of_le hdone, List.append_nil] at hrest
  · have hzero : p.sent = 0 := by omega
    obtain ⟨f, n⟩ := p
    simp only at hzero
    subst hzero
    exact (orderly_cons_zero f).mp h

/-! ## The receiver -/

section Receiver
variable {v : List α → Incremental.Scan Nat}

/-- The receiver finds a frame at the front of a stream that begins with one. -/
theorem cut_frame_append (hv : Incremental.StableVerdict v) {f : List α} (hf : v f = .done f.length)
    (t : List α) :
    Incremental.cut v (f ++ t) = (f :: (Incremental.cut v t).1, (Incremental.cut v t).2) := by
  have hpos := hv.ready_pos hf
  have hne : f ++ t ≠ [] := by
    intro hnil
    rw [(List.append_eq_nil_iff.mp hnil).1, List.length_nil] at hpos
    omega
  rw [Incremental.cut_step hv hne, hv.ready_append hf t]
  simp only [List.take_left, List.drop_left]

/-- The receiver finds the frames a stream begins with, and then those of the rest. -/
theorem cut_frames (hv : Incremental.StableVerdict v) {frames : List (List α)}
    (h : ∀ f ∈ frames, v f = .done f.length) (t : List α) :
    Incremental.cut v (frames.flatten ++ t) = (frames ++ (Incremental.cut v t).1, (Incremental.cut v t).2) := by
  induction frames with
  | nil => rfl
  | cons f frames ih =>
    obtain ⟨hf, hframes⟩ := List.forall_mem_cons.mp h
    rw [List.flatten_cons, List.append_assoc, cut_frame_append hv hf, ih hframes]
    rfl

/-- Part of a frame is nothing to the receiver yet. -/
theorem cut_part (hv : Incremental.StableVerdict v) {f s : List α} (hf : v f = .done f.length) (hs : s <+: f)
    (hsf : s ≠ f) : Incremental.cut v s = ([], .waiting s) := by
  by_cases hnil : s = []
  · rw [hnil]
    rfl
  · obtain ⟨t, rfl⟩ := hs
    have hlt : s.length < (s ++ t).length := by
      have ht : t ≠ [] := by
        rintro rfl
        exact hsf (List.append_nil s).symm
      have := List.length_pos_iff.mpr ht
      rw [List.length_append]
      omega
    rw [Incremental.cut_step hv hnil, hv.incomplete_of_done hnil hf hlt]

/-- **What the receiver makes of such a channel**: every frame it finds is one, and then it
waits for the rest of one. It never finds anything else. -/
theorem Framed.cut (hv : Incremental.StableVerdict v) (hF : ∀ f, F f → v f = .done f.length)
    (h : Framed F sent) :
    ∃ frames rest, Incremental.cut v sent = (frames, .waiting rest) ∧ sent = frames.flatten ++ rest ∧
      (∀ f ∈ frames, F f) ∧ (rest = [] ∨ ∃ f, F f ∧ rest <+: f) := by
  obtain ⟨frames, hframes, hsent⟩ := h
  induction frames generalizing sent with
  | nil =>
    obtain rfl : sent = [] := List.prefix_nil.mp hsent
    exact ⟨[], [], rfl, rfl, by simp, .inl rfl⟩
  | cons f frames ih =>
    obtain ⟨hf, hframes⟩ := List.forall_mem_cons.mp hframes
    rw [List.flatten_cons] at hsent
    -- what has been sent ends in `f` or goes beyond it
    rcases List.prefix_or_prefix_of_prefix hsent (List.prefix_append f frames.flatten) with hpart | ⟨s, rfl⟩
    · by_cases heq : sent = f
      · refine ⟨[f], [], ?_, ?_, ?_, .inl rfl⟩
        · have hone := cut_frame_append hv (hF f hf) []
          rw [List.append_nil] at hone
          rw [heq, hone]
          rfl
        · simp [heq]
        · simpa using hf
      · exact ⟨[], sent, cut_part hv (hF f hf) hpart heq, rfl, by simp, .inr ⟨f, hf, hpart⟩⟩
    · have hrest : s <+: frames.flatten := (List.prefix_append_right_inj f).mp hsent
      obtain ⟨frames', rest, hcut, hs, hframes', hrest'⟩ := ih hframes hrest
      refine ⟨f :: frames', rest, ?_, ?_, List.forall_mem_cons.mpr ⟨hf, hframes'⟩, hrest'⟩
      · rw [cut_frame_append hv (hF f hf) s, hcut]
      · rw [List.flatten_cons, List.append_assoc, ← hs]

/-- **Frames that have been taken off a beginning** of such a channel are frames. -/
theorem Framed.of_taken (hv : Incremental.StableVerdict v) (hF : ∀ f, F f → v f = .done f.length)
    (h : Framed F sent) {frames : List (List α)} {tail : List α} (hframes : ∀ f ∈ frames, v f = .done f.length)
    (hsub : frames.flatten ++ tail <+: sent) : ∀ f ∈ frames, F f := by
  obtain ⟨all, hall, hsent⟩ := h
  have hbegin : Framed F (frames.flatten ++ tail) := ⟨all, hall, hsub.trans hsent⟩
  obtain ⟨found, rest, hcut, -, hfound, -⟩ := hbegin.cut hv hF
  rw [cut_frames hv hframes] at hcut
  have hfirst : frames ++ (Incremental.cut v tail).1 = found := congrArg Prod.fst hcut
  intro f hf
  refine hfound f ?_
  rw [← hfirst]
  exact List.mem_append_left _ hf

/-- **Whoever takes frames off a beginning of `sent`** takes the first of them, and all of them if
it was all of `sent` and nothing whole is left. -/
theorem prefix_of_taken (hv : Incremental.StableVerdict v) {frames sent : List (List α)} {tail : List α}
    (hframes : ∀ f ∈ frames, v f = .done f.length) (hsent : ∀ f ∈ sent, v f = .done f.length)
    (hsub : frames.flatten ++ tail <+: sent.flatten) :
    frames <+: sent ∧
      (frames.flatten ++ tail = sent.flatten → Incremental.cut v tail = ([], .waiting tail) → frames = sent) := by
  have hall : Incremental.cut v sent.flatten = (sent, .waiting []) := by
    have h := cut_frames hv hsent []
    rw [List.append_nil] at h
    rw [h]
    exact Prod.ext (List.append_nil sent) rfl
  obtain ⟨more, hmore⟩ := hsub
  rw [← hmore, List.append_assoc, cut_frames hv hframes] at hall
  refine ⟨⟨_, (Prod.ext_iff.mp hall).1⟩, fun heq hwait => ?_⟩
  have hnil : more = [] := by
    rw [heq] at hmore
    exact List.append_right_eq_self.mp hmore
  rw [hnil, List.append_nil, hwait] at hall
  exact (List.append_nil frames).symm.trans (Prod.ext_iff.mp hall).1

end Receiver

end Channel
