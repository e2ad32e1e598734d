import InlineImpact.Exploration

/-!
What operations of an exploration come to, by the way they are built. `on_bind` is the rule for one
operation after another, and every elementary operation has an equation of its own; later proofs open
an operation by these and look at no session field by field. `Yields` says what holds after an
operation, and has a rule for every way to build one.
-/
namespace InlineImpact.Exploration

variable {W α β : Type}

/-- The rows after one more event, also if the sessions differ in other ways. -/
theorem rows_of_journal {V : Type} {s : Session W} {t : Session V} (ev : Event)
    (h : t.journal = s.journal ++ [ev]) : t.rows = s.rows ++ ev.row?.toList := by
  rw [Session.rows, h, List.filterMap_append]
  cases ev <;> rfl

namespace Exploring

@[simp] theorem on_pure (a : α) (s : Session W) : (pure a : Exploring W α).on s = (.ok a, s) := rfl

@[simp] theorem on_throw (f : Failure) (s : Session W) :
    (throw f : Exploring W α).on s = (.error f, s) := rfl

@[simp] theorem on_get (s : Session W) : (get : Exploring W (Session W)).on s = (.ok s, s) := rfl

@[simp] theorem on_modify (f : Session W → Session W) (s : Session W) :
    (modify f : Exploring W PUnit).on s = (.ok (), f s) := rfl

/-- The second operation starts where the first ended, unless the first failed. -/
theorem on_bind (x : Exploring W α) (k : α → Exploring W β) (s : Session W) :
    (x >>= k).on s = match x.on s with
      | (.ok a, t) => (k a).on t
      | (.error f, t) => (.error f, t) := by
  change (match x.run.run s with | (o, t) => (ExceptT.bindCont k o).run t) = _
  rcases h : x.on s with ⟨o, t⟩
  rw [show x.run.run s = (o, t) from h]
  cases o <;> rfl

theorem on_bind_ok {x : Exploring W α} {s t : Session W} {a : α} (h : x.on s = (.ok a, t))
    (k : α → Exploring W β) : (x >>= k).on s = (k a).on t := by
  simp [on_bind, h]

theorem on_bind_error {x : Exploring W α} {s t : Session W} {f : Failure} (h : x.on s = (.error f, t))
    (k : α → Exploring W β) : (x >>= k).on s = (.error f, t) := by
  simp [on_bind, h]

/-- What an operation gives can be changed without a trace. -/
theorem on_bind_pure (x : Exploring W α) (g : α → β) (s : Session W) :
    ((x >>= fun a => pure (g a)).on s).2 = (x.on s).2 := by
  rw [on_bind]
  rcases x.on s with ⟨_ | _, t⟩ <;> rfl

@[simp] theorem on_caught (x : Exploring W α) (s : Session W) :
    (caught x).on s = (.ok (x.on s).1, (x.on s).2) := rfl

@[simp] theorem on_demand (r : Except Failure α) (s : Session W) : (demand r).on s = (r, s) := rfl

@[simp] theorem on_say (text : String) (s : Session W) :
    (say text).on s = (.ok (), { s with output := s.output ++ text }) := rfl

theorem on_say_empty (s : Session W) : (say "").on s = (.ok (), s) := by
  rw [on_say, String.append_empty]

theorem eq_of_say {text : String} {s t : Session W} (h : (say text).on s = (.ok (), t)) :
    t = { s with output := s.output ++ text } :=
  congrArg Prod.snd (h.symm.trans (on_say text s))

@[simp] theorem on_isExplored (c : Decision.Context) (s : Session W) :
    (isExplored c).on s = (.ok (s.explored.contains c), s) := rfl

@[simp] theorem on_markExplored (c : Decision.Context) (s : Session W) :
    (markExplored c).on s = (.ok (), if s.explored.contains c then s
      else { s with explored := s.explored ++ [c] }) := rfl

/-- Demands one after the other are one demand. -/
theorem demand_bind (r : Except Failure α) (k : α → Except Failure β) :
    (demand (r >>= k) : Exploring W β) = demand r >>= fun a => demand (k a) := by
  cases r <;> rfl

end Exploring

namespace Explorer

variable (e : Explorer W)

@[simp] theorem on_poll (s : Session W) : e.poll.on s = (.ok (e.host.poll s.world).1,
    { s with world := (e.host.poll s.world).2 }.note (.polled (e.host.poll s.world).1)) := rfl

@[simp] theorem on_remember (b : Benchmark) (c : Configuration) (m : Measurement) (s : Session W) :
    (remember b c m).on s =
      (.ok (), { s with measurements := s.measurements.put (b.name, c.name) m }) := rfl

@[simp] theorem on_load (path : String) (s : Session W) : (e.load path).on s =
    ((e.host.load path e.settings.pmcInterval s.workspace s.world).1,
      { s with world := (e.host.load path e.settings.pmcInterval s.workspace s.world).2 }.note
        (.loaded (e.host.load path e.settings.pmcInterval s.workspace s.world).1)) := rfl

/-- The outcome of a run is the one that is noted, and only the host's state, the files and the
output change besides. -/
theorem on_launch (b : Benchmark) (c : Configuration) (s : Session W) :
    ∃ o world workspace output, (e.launch b c).on s =
      (o, { s with world, workspace, output }.note (.ran b c o)) :=
  ⟨_, _, _, _, rfl⟩

/-- A tree that was written out is noted. -/
theorem on_prepare (t : Tree) (s : Session W) :
    (∃ f, (e.prepare t).on s = (.error f, s)) ∨
      ∃ c workspace, Replay.prepare s.workspace t e.settings.resultsDir = .ok (c, workspace) ∧
        (e.prepare t).on s = (.ok c, { s with workspace }.note (.prepared t)) := by
  rcases h : Replay.prepare s.workspace t e.settings.resultsDir with f | ⟨c, workspace⟩
  · exact .inl ⟨f, by simp only [prepare, Exploring.on_bind, Exploring.on_get, Exploring.on_demand, h]⟩
  · exact .inr ⟨c, workspace, rfl, by
      simp only [prepare, Exploring.on_bind, Exploring.on_get, Exploring.on_demand, h,
        Exploring.on_modify, Exploring.on_pure]⟩

end Explorer

/-- A row that was handed out is noted; one that could not be appended is not. -/
theorem on_emit (row : Dataset.Row) (s : Session W) :
    (∃ dataset workspace, (emit row).on s = (.ok (), { s with dataset, workspace }.note (.emitted row))) ∨
      ∃ f dataset workspace, (emit row).on s = (.error f, { s with dataset, workspace }) := by
  rcases hd : s.dataset with _ | w
  · exact .inl ⟨none, s.workspace, by
      simp only [Exploring.on, ExceptT.run, StateT.run, emit, hd]
      rw [← hd]⟩
  · rcases ha : w.append s.workspace row with ⟨o, w', workspace⟩
    cases o with
    | ok =>
      exact .inl ⟨some w', workspace, by
        simp only [Exploring.on, ExceptT.run, StateT.run, emit, hd, ha]⟩
    | error f =>
      exact .inr ⟨f, some w', workspace, by
        simp only [Exploring.on, ExceptT.run, StateT.run, emit, hd, ha]⟩

/-- From the session the operation ends in `post`, or it fails with a failure that `fail` tells of. -/
structure Exploring.Yields (x : Exploring W α) (s : Session W) (post : α → Session W → Prop)
    (fail : Failure → Session W → Prop) : Prop where
  ok : ∀ a t, x.on s = (.ok a, t) → post a t
  error : ∀ failure t, x.on s = (.error failure, t) → fail failure t

namespace Exploring.Yields

variable {x : Exploring W α} {k : α → Exploring W β} {s t : Session W}
  {post mid : α → Session W → Prop} {post' : β → Session W → Prop}
  {fail fail' : Failure → Session W → Prop}

theorem of_ok {a : α} (hx : x.on s = (.ok a, t)) (h : post a t) : x.Yields s post fail where
  ok a' t' hx' := by
    obtain ⟨rfl, rfl⟩ : a = a' ∧ t = t' := by simpa using hx.symm.trans hx'
    exact h
  error f t' hx' := by simp [hx] at hx'

theorem of_error {f : Failure} (hx : x.on s = (.error f, t)) (h : fail f t) : x.Yields s post fail where
  ok a t' hx' := by simp [hx] at hx'
  error f' t' hx' := by
    obtain ⟨rfl, rfl⟩ : f = f' ∧ t = t' := by simpa using hx.symm.trans hx'
    exact h

/-- It is enough to look at what is left to do. -/
theorem of_on {y : Exploring W α} (hx : x.on s = y.on t) (hy : y.Yields t post fail) : x.Yields s post fail :=
  ⟨fun a u h => hy.ok a u (hx.symm.trans h), fun f u h => hy.error f u (hx.symm.trans h)⟩

/-- An operation that came to a result tells nothing of failures. -/
theorem lands {a : α} (hx : x.Yields s post fun _ _ => True) (h : x.on s = (.ok a, t)) : post a t := hx.ok a t h

theorem pure {a : α} (h : post a s) : (pure a : Exploring W α).Yields s post fail := of_ok (on_pure a s) h

theorem throw {f : Failure} (h : fail f s) : (throw f : Exploring W α).Yields s post fail :=
  of_error (on_throw f s) h

theorem bind (hx : x.Yields s mid fail) (hk : ∀ a t, mid a t → (k a).Yields t post' fail) :
    (x >>= k).Yields s post' fail := by
  rcases h : x.on s with ⟨f | a, t⟩
  · exact of_error (on_bind_error h k) (hx.error f t h)
  · have hr := on_bind_ok h k
    obtain ⟨hok, herror⟩ := hk a t (hx.ok a t h)
    exact ⟨fun b u hb => hok b u (hr.symm.trans hb), fun f u hf => herror f u (hr.symm.trans hf)⟩

/-- The operation before comes to a result for sure. -/
theorem after {a : α} (hx : x.on s = (.ok a, t)) (hk : (k a).Yields t post' fail) :
    (x >>= k).Yields s post' fail := by
  have hx' : x.Yields s (fun a t => (k a).Yields t post' fail) fail := of_ok hx hk
  exact hx'.bind fun _ _ h => h

/-- A demand is met, or the operation fails with what was demanded. -/
theorem demand_bind {r : Except Failure α} (hf : ∀ f, r = .error f → fail f s)
    (hk : ∀ a, r = .ok a → (k a).Yields s post' fail) : (demand r >>= k).Yields s post' fail := by
  cases r with
  | error f => exact of_error (on_bind_error (on_demand _ s) k) (hf f rfl)
  | ok a => exact after (on_demand _ s) (hk a rfl)

theorem mono (hx : x.Yields s mid fail) (h : ∀ a t, mid a t → post a t)
    (hf : ∀ f t, fail f t → fail' f t) : x.Yields s post fail' :=
  ⟨fun a t ho => h a t (hx.ok a t ho), fun f t ho => hf f t (hx.error f t ho)⟩

theorem mono_error (hx : x.Yields s post fail) (hf : ∀ f t, fail f t → fail' f t) :
    x.Yields s post fail' :=
  hx.mono (fun _ _ h => h) hf

/-- A failure that is caught is no failure. -/
theorem caught_bind {k : Except Failure α → Exploring W β} (hx : x.Yields s mid fail)
    (hk : ∀ a t, mid a t → (k (.ok a)).Yields t post' fail')
    (hf : ∀ f t, fail f t → (k (.error f)).Yields t post' fail') :
    (caught x >>= k).Yields s post' fail' := by
  rcases h : x.on s with ⟨f | a, t⟩
  · exact after (by rw [on_caught, h]) (hf f t (hx.error f t h))
  · exact after (by rw [on_caught, h]) (hk a t (hx.ok a t h))

/-- What happened can be recalled. -/
theorem traced (hx : x.Yields s post fail) : x.Yields s (fun a t => x.on s = (.ok a, t) ∧ post a t)
    (fun f t => x.on s = (.error f, t) ∧ fail f t) :=
  ⟨fun a t h => ⟨h, hx.ok a t h⟩, fun f t h => ⟨h, hx.error f t h⟩⟩

end Exploring.Yields

end InlineImpact.Exploration
