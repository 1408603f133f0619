/-!
# Machines that raise signals

A machine takes one input at a time, goes over into a new state and raises a list of signals.
`gather` runs it over a list of inputs and gathers the signals of all of them in order. It runs in
one pass; `gather_cons` and `gather_append` say what it gives.
-/

namespace FlightLink

variable {σ α β : Type}

/-- Runs a machine over inputs: the state after them and all signals raised, in order. -/
def gather (step : σ → α → σ × List β) (s : σ) (inputs : List α) : σ × List β :=
  let (s, out) := inputs.foldl
    (fun (s, out) a =>
      let (s, raised) := step s a
      (s, raised.foldl Array.push out))
    (s, (#[] : Array β))
  (s, out.toList)

/-- Without anything to take, the state stays and nothing is put out. -/
@[simp] theorem gather_nil (step : σ → α → σ × List β) (s : σ) :
    gather step s [] = (s, []) := rfl

/-- The loop of `gather`, started with some signals, leaves them in front. -/
private theorem foldl_gather (step : σ → α → σ × List β) (s : σ) (out : Array β)
    (inputs : List α) :
    inputs.foldl
        (fun (p : σ × Array β) a => ((step p.1 a).1, (step p.1 a).2.foldl Array.push p.2))
        (s, out) =
      ((gather step s inputs).1, out ++ (gather step s inputs).2.toArray) := by
  induction inputs generalizing s out with
  | nil => simp
  | cons a inputs ih =>
    have h := ih (step s a).1 ((step s a).2.foldl Array.push #[])
    simp only [gather, List.foldl_cons] at h ⊢
    rw [h]
    have h := ih (step s a).1 ((step s a).2.foldl Array.push out)
    simp only [gather] at h
    rw [h]
    simp [← Array.toList_inj]

/-- The first input comes first: its signals stand before those of the others. -/
theorem gather_cons (step : σ → α → σ × List β) (s : σ) (a : α) (inputs : List α) :
    gather step s (a :: inputs) =
      ((gather step (step s a).1 inputs).1,
        (step s a).2 ++ (gather step (step s a).1 inputs).2) := by
  have h := foldl_gather step (step s a).1 ((step s a).2.foldl Array.push #[]) inputs
  simp only [gather, List.foldl_cons] at h ⊢
  rw [h]
  simp

/-- Running a machine over inputs in two parts is running it over all of them. -/
theorem gather_append (step : σ → α → σ × List β) (s : σ) (front back : List α) :
    gather step s (front ++ back) =
      ((gather step (gather step s front).1 back).1,
        (gather step s front).2 ++ (gather step (gather step s front).1 back).2) := by
  induction front generalizing s with
  | nil => simp
  | cons a front ih => simp [gather_cons, ih]

end FlightLink
