import ApApps.Bufio.Reader

/- Two readers of one stream that comes in different pieces.

   As long as no piece tears the pattern, the calls of both answer the same, and what is
   left to them is alike again (`steady_read`, `steady_readUntil`). That is closed under
   sequencing, so whatever is programmed with these two calls takes no notice of the pieces:
   the answers are the same, the errors are, and so is what it raises. A protocol that is
   read with a reader has only to be shown `Steady`. -/
namespace ApApps.Bufio
open Exec Pieces

/-- The same bytes are to come, with `pat` in one piece wherever it occurs; or both readers
have failed in the same way. -/
inductive Alike (pat : Bytes) (r r' : Reader) : Prop where
  | opened {p q : Bytes} {ps qs : List Bytes} {e : Bytes} (h : r.At p ps e) (h' : r'.At q qs e)
      (same : (p :: ps).flatten = (q :: qs).flatten) (untorn : Untorn pat (p :: ps))
      (untorn' : Untorn pat (q :: qs)) : Alike pat r r'
  | failed {e : Bytes} (h : r.err = some e) (h' : r'.err = some e) : Alike pat r r'

/-- Started on two readers that are alike, `x` does the same. -/
def Steady {α : Type} (pat : Bytes) (x : M α) : Prop :=
  ∀ r r', Alike pat r r' → (∃ a s s', x r = .ok a s ∧ x r' = .ok a s' ∧ Alike pat s s') ∨
    ∃ e s s', x r = .error e s ∧ x r' = .error e s'

section Steady
variable {α β : Type} {pat : Bytes}

theorem steady_pure (a : α) : Steady pat (pure a) := fun r r' h => .inl ⟨a, r, r', rfl, rfl, h⟩

theorem steady_throw (e : LuaError) : Steady pat (throw e : M α) := fun r r' _ => .inr ⟨e, r, r', rfl, rfl⟩

theorem Steady.bind {x : M α} {f : α → M β} (hx : Steady pat x) (hf : ∀ a, Steady pat (f a)) :
    Steady pat (x >>= f) := by
  intro r r' h
  rcases hx r r' h with ⟨a, s, s', hr, hr', hs⟩ | ⟨e, s, s', hr, hr'⟩
  · rw [bind_of_ok hr, bind_of_ok hr']
    exact hf a s s' hs
  · exact .inr ⟨e, s, s', bind_of_error hr, bind_of_error hr'⟩

theorem Steady.returned {x : M α} (hx : Steady pat x) {r r' : Reader} (h : Alike pat r r') :
    returned (x r) = returned (x r') := by
  rcases hx r r' h with ⟨a, s, s', hr, hr', -⟩ | ⟨e, s, s', hr, hr'⟩
  · rw [hr, hr']
    rfl
  · rw [hr, hr']
    rfl

/-- What takes as many bytes as the stream says, whatever the pieces. -/
theorem steady_of_answers (hpat : pat ≠ []) {x : M Answer} (wants : Bytes → Option Nat)
    (hle : ∀ s k, wants s = some k → k ≤ s.length)
    (hx : ∀ r p ps e, r.At p ps e → Untorn pat (p :: ps) →
      Answers (wants (p :: ps).flatten) (p :: ps) e [] (x r))
    (hfailed : ∀ r e, r.err = some e → x r = .ok (.error (some e)) r) : Steady pat x := by
  intro r r' h
  cases h with
  | failed h h' => exact .inl ⟨_, r, r', hfailed r _ h, hfailed r' _ h', .failed h h'⟩
  | @opened p q ps qs e h h' same untorn untorn' =>
    have hr := hx r p ps e h untorn
    have hr' := hx r' q qs e h' untorn'
    rw [← same] at hr'
    cases hw : wants (p :: ps).flatten with
    | none =>
      rw [hw] at hr hr'
      obtain ⟨s, hs, herr⟩ := hr
      obtain ⟨s', hs', herr'⟩ := hr'
      exact .inl ⟨_, s, s', hs, hs', .failed herr herr'⟩
    | some k =>
      have hk := hle _ k hw
      rw [hw] at hr hr'
      obtain ⟨s, p1, ps1, hs, hdrop, hat⟩ := hr
      obtain ⟨s', q1, qs1, hs', hdrop', hat'⟩ := hr'
      -- what is left of both streams is the same again
      have hsame : (p1 :: ps1).flatten = (q1 :: qs1).flatten := by
        rw [← hdrop, ← hdrop', flatten_dropPieces, flatten_dropPieces, same]
      have hleft : Untorn pat (p1 :: ps1) := hdrop ▸ untorn.dropPieces hpat hk
      have hleft' : Untorn pat (q1 :: qs1) := hdrop' ▸ untorn'.dropPieces hpat (same ▸ hk)
      rw [← same] at hs'
      exact .inl ⟨_, s, s', hs, hs', .opened hat hat' hsame hleft hleft'⟩

/-- A number of bytes. -/
theorem steady_read (hpat : pat ≠ []) (n : Nat) : Steady pat (readerRead n) := by
  by_cases hn : 0 < n
  · have hwants : ∀ (s : Bytes) (k : Nat), (if n ≤ s.length then some n else none) = some k → k ≤ s.length := by
      intro s k hk
      obtain ⟨hle, hsome⟩ := Option.ite_none_right_eq_some.mp hk
      cases hsome
      exact hle
    refine steady_of_answers hpat _ hwants (fun r p ps e h _ => readerRead_answers h hn) fun r e h => ?_
    unfold readerRead
    rw [if_pos hn, bind_of_ok (turns_ok r)]
    exact refillLoop_failed lookBytes h _ n []
  · have hthrow : readerRead n = throw (.assertFailed "reader_read") := if_neg hn
    rw [hthrow]
    exact steady_throw _

/-- Everything up to the pattern. -/
theorem steady_readUntil (hpat : pat ≠ []) : Steady pat (readerReadUntil pat) := by
  have hwants : ∀ (s : Bytes) (k : Nat), (findAt pat s).map (· + pat.length) = some k → k ≤ s.length := by
    intro s k hk
    obtain ⟨i, hi, rfl⟩ := Option.map_eq_some_iff.mp hk
    exact findAt_le hi
  refine steady_of_answers hpat _ hwants (fun r p ps e h huntorn => ?_) fun r e h => ?_
  · rw [← huntorn.collect_find]
    exact readerReadUntil_answers h hpat
  · unfold readerReadUntil
    rw [bind_of_ok (turns_ok r)]
    exact refillLoop_failed (lookPattern pat) h _ () []

/-- A loop that never finds anything looks at everything. -/
theorem steady_never (hpat : pat ≠ []) :
    Steady pat (do refillLoop (fun _ : Unit => pure (.inr ())) (← turns) () []) := by
  have hlooks : Looks (fun _ : Unit => (pure (.inr ()) : M (Nat ⊕ Unit))) (fun _ _ => .inr ()) (fun _ => True) :=
    { looks := fun _ _ => rfl
      found := fun _ h => by cases h
      empty := fun _ => rfl
      keeps := fun _ _ => trivial }
  have hnone : ∀ ps : List Bytes, collect (fun (_ : Unit) (_ : Bytes) => (.inr () : Nat ⊕ Unit)) () ps = none := by
    intro ps
    induction ps with
    | nil => rfl
    | cons p ps ih => exact congrArg (Option.map (· + p.length)) ih
  refine steady_of_answers hpat (fun _ => none) (fun _ _ h => by cases h) (fun r p ps e h _ => ?_)
    fun r e h => ?_
  · have hle := h.length_le
    rw [bind_of_ok (turns_ok r), ← hnone (p :: ps)]
    exact refillLoop_collect hlooks trivial h (by omega) []
  · rw [bind_of_ok (turns_ok r)]
    exact refillLoop_failed _ h _ () []

/-- A stream in pieces, and the same in other pieces. -/
theorem alike_readerNew (fd : Nat) {p q : Bytes} {ps qs : List Bytes} (same : (p :: ps).flatten = (q :: qs).flatten)
    (h : Untorn pat (p :: ps)) (h' : Untorn pat (q :: qs)) (fin : Bytes) :
    Alike pat (readerNew fd p ps fin) (readerNew fd q qs fin) := by
  have hfd : ¬ (fd : Int) < 0 := by omega
  have hat : ∀ p ps, (readerNew fd p ps fin).At p ps fin := fun p ps =>
    ⟨open_readerNew fd p ps fin, if_neg hfd, if_neg hfd⟩
  exact .opened (hat p ps) (hat q qs) same h h'

end Steady

end ApApps.Bufio
