import ResourceCli.Run.World

/-!
# Runs that are played in a world

A world answers a run step by step, so playing one run and then another is playing both of them in
the world that is there by then (`Run.play_bind`).  For jobs, which may fail, the second one is only
played if the first one works (`Job.play_bind`).  The jobs that read,
write and make directories do to the disk of the world what the disk itself says.
-/

namespace ResourceCli

theorem Run.play_bind {α β : Type} (r : Run α) (f : α → Run β) (w : World) :
    (r.bind f).play w = (f (r.play w).1).play (r.play w).2 := by
  induction r generalizing w with
  | done a => rfl
  | note event next ih => exact ih _
  | print stream text next ih => cases stream <;> exact ih _
  | readText path next ih | readBytes path next ih | has path next ih | time next ih
  | write path text next ih | append path text next ih | makeDirectories path next ih
  | send request next ih => exact ih _ _

namespace Job

variable {α β : Type} {t : Job α} {f : α → Job β} {w w' : World}

theorem play_bind (t : Job α) (f : α → Job β) (w : World) :
    (t >>= f).play w =
      match t.play w with
      | (.ok a, w') => (f a).play w'
      | (.error e, w') => (.error e, w') := by
  have hb : (t >>= f).play w = (ExceptT.bindCont f (t.play w).1 : Run _).play (t.play w).2 :=
    Run.play_bind t.run (fun x => ExceptT.bindCont f x) w
  rw [hb]
  rcases t.play w with ⟨⟨e⟩ | ⟨a⟩, w'⟩ <;> rfl

/-- A job that works is followed by the next one. -/
theorem play_bind_ok {a : α} (h : t.play w = (.ok a, w')) : (t >>= f).play w = (f a).play w' := by
  rw [play_bind, h]

/-- A job that fails is followed by nothing. -/
theorem play_bind_error {e : Report} (h : t.play w = (.error e, w')) :
    (t >>= f).play w = (.error e, w') := by
  rw [play_bind, h]

theorem play_map (g : α → β) : (g <$> t).play w = ((t.play w).1.map g, (t.play w).2) := by
  rw [map_eq_pure_bind]
  rcases h : t.play w with ⟨⟨e⟩ | ⟨a⟩, w'⟩
  · exact play_bind_error h
  · exact play_bind_ok h

theorem play_ofExcept (x : Except Failure α) (w : World) :
    (Job.ofExcept x).play w = (x.mapError fun failure => { failure := failure }, w) := by
  cases x <;> rfl

/-- What is lifted works exactly if it is a result, and leaves the world as it is. -/
theorem play_ofExcept_eq_ok_iff {x : Except Failure α} {a : α} :
    (Job.ofExcept x).play w = (.ok a, w') ↔ x = .ok a ∧ w = w' := by
  rw [play_ofExcept]
  cases x with
  | ok b =>
    constructor
    · intro h
      cases h
      exact ⟨rfl, rfl⟩
    · rintro ⟨h, rfl⟩
      cases h
      rfl
  | error e =>
    constructor
    · intro h
      cases h
    · rintro ⟨h, -⟩
      cases h

theorem play_note (event : Log.Event) (w : World) :
    (Job.note event).play w = (.ok (), { w with notes := w.notes ++ [event] }) := rfl

/-- What is noted down is no failure. -/
theorem exists_play_notes (events : List Log.Event) (w : World) :
    ∃ w', (Job.notes events).play w = (.ok (), w') := by
  induction events generalizing w with
  | nil => exact ⟨w, rfl⟩
  | cons event events ih =>
    rw [notes, play_bind_ok (play_note event w)]
    exact ih _

theorem play_readText (path : String) (blame : FileFault → Failure) (w : World) :
    (Job.readText path blame).play w =
      ((w.disk.readText path).mapError fun fault => { failure := blame fault }, w) := by
  have h : (ofRun (.readText path .done)).play w = (.ok (w.disk.readText path), w) := rfl
  rw [readText, play_bind_ok h]
  cases w.disk.readText path <;> rfl

theorem play_write (path text : String) (w : World) :
    (Job.write path text).play w =
      match w.disk.write path (Text.utf8Encode text) with
      | .ok disk => (.ok (), { w with disk := disk })
      | .error fault => (.error { failure := .file fault }, w) := by
  have h : (ofRun (.write path text .done)).play w =
      (.ok (w.change (w.disk.write path (Text.utf8Encode text))).1,
        (w.change (w.disk.write path (Text.utf8Encode text))).2) := rfl
  rw [write, play_bind_ok h]
  cases w.disk.write path (Text.utf8Encode text) <;> rfl

theorem play_makeDirectories (path : String) (w : World) :
    (Job.makeDirectories path).play w =
      match w.disk.makeDirectories path with
      | .ok disk => (.ok (), { w with disk := disk })
      | .error fault => (.error { failure := .file fault }, w) := by
  have h : (ofRun (.makeDirectories path .done)).play w =
      (.ok (w.change (w.disk.makeDirectories path)).1,
        (w.change (w.disk.makeDirectories path)).2) := rfl
  rw [makeDirectories, play_bind_ok h]
  cases w.disk.makeDirectories path <;> rfl

end Job

end ResourceCli
