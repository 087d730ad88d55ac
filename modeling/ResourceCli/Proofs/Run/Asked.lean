import ResourceCli.Proofs.Exchange.Sent
import ResourceCli.Proofs.Run.Played

/-!
# What a run asks to be sent

A world keeps the requests that its server answered.  A run may also ask for one that nobody
answers, so here are all that it asks for while it is played in a world, in order (`Run.asked`).
What is asked for while one job is played after another one is asked for by the first one, or by the
second one, in the world that the first one leaves if it works (`Job.mem_asked_bind_iff`); and a job
that sends only requests of a kind asks for no others in any world.
-/

namespace ResourceCli

variable {α β : Type}

/-- The requests that a run asks for while it is played in a world. -/
def Run.asked (r : Run α) (w : World) : List Outgoing :=
  match r with
  | done _ => []
  | note event next => next.asked { w with notes := w.notes ++ [event] }
  | print .output text next => next.asked { w with output := w.output ++ text }
  | print .errors text next => next.asked { w with errors := w.errors ++ text }
  | readText path next => (next (w.disk.readText path)).asked w
  | readBytes path next => (next (w.disk.read path)).asked w
  | write path text next =>
    let (result, w) := w.change (w.disk.write path (Text.utf8Encode text))
    (next result).asked w
  | append path text next =>
    let (result, w) := w.change (w.disk.append path (Text.utf8Encode text))
    (next result).asked w
  | makeDirectories path next =>
    let (result, w) := w.change (w.disk.makeDirectories path)
    (next result).asked w
  | has path next => (next (w.disk.has path)).asked w
  | time next => (next w.now).asked w
  | send request next =>
    let (result, w) := w.answer request
    request :: (next result).asked w

theorem Run.asked_bind (r : Run α) (f : α → Run β) (w : World) :
    (r.bind f).asked w = r.asked w ++ (f (r.play w).1).asked (r.play w).2 := by
  induction r generalizing w with
  | done a => rfl
  | note event next ih => exact ih _
  | print stream text next ih => cases stream <;> exact ih _
  | readText path next ih | readBytes path next ih | has path next ih | time next ih
  | write path text next ih | append path text next ih | makeDirectories path next ih =>
    exact ih _ _
  | send request next ih => exact congrArg (request :: ·) (ih _ _)

/-- What a run asks for is of the kind that it sends. -/
theorem Run.SendsOnly.of_mem_asked {P : Outgoing → Prop} {r : Run α} (h : r.SendsOnly P)
    {w : World} {out : Outgoing} (hout : out ∈ r.asked w) : P out := by
  induction r generalizing w with
  | done a => cases hout
  | note event next ih => exact ih h hout
  | print stream text next ih => cases stream <;> exact ih h hout
  | readText path next ih | readBytes path next ih | has path next ih | time next ih
  | write path text next ih | append path text next ih | makeDirectories path next ih =>
    exact ih _ (h _) hout
  | send request next ih =>
    rcases List.mem_cons.1 hout with rfl | hout
    · exact h.1
    · exact ih _ (h.2 _) hout

namespace Job

variable {t : Job α} {f : α → Job β} {w : World} {out : Outgoing}

/-- The requests that a job asks for while it is played in a world. -/
def asked (t : Job α) (w : World) : List Outgoing := Run.asked t.run w

theorem SendsOnly.of_mem_asked {P : Outgoing → Prop} (h : t.SendsOnly P)
    (hout : out ∈ t.asked w) : P out := by
  unfold SendsOnly at h
  exact Run.SendsOnly.of_mem_asked h hout

theorem mem_asked_bind_iff : out ∈ (t >>= f).asked w ↔
    out ∈ t.asked w ∨ ∃ a w', t.play w = (.ok a, w') ∧ out ∈ (f a).asked w' := by
  have hbind : (t >>= f).asked w =
      t.asked w ++ (ExceptT.bindCont f (t.play w).1 : Run _).asked (t.play w).2 :=
    Run.asked_bind t.run (fun x => ExceptT.bindCont f x) w
  rw [hbind, List.mem_append]
  refine or_congr_right ?_
  rcases t.play w with ⟨⟨e⟩ | ⟨a⟩, w'⟩
  · constructor
    · intro h
      cases h
    · rintro ⟨_, _, ⟨⟩, -⟩
  · constructor
    · exact fun h => ⟨a, w', rfl, h⟩
    · rintro ⟨_, _, ⟨⟩, h⟩
      exact h

/-- After a job that sends nothing, what is asked for is what the next one asks for. -/
theorem exists_of_mem_asked_bind (h : t.SendsOnly fun _ => False)
    (hout : out ∈ (t >>= f).asked w) : ∃ a w', t.play w = (.ok a, w') ∧ out ∈ (f a).asked w' :=
  (mem_asked_bind_iff.1 hout).resolve_left h.of_mem_asked

end Job

end ResourceCli
