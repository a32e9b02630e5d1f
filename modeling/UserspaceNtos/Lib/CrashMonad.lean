import UserspaceNtos.Lib.WriteCache

/-!
# Programs over a store that can fail and lose power

`DiskM V ε` is the monad of programs that write and flush a `Store V`.  What the
environment does is a script: every write and every flush takes the next `Fate`
from it and completes, fails, or stops the program there.  A program stopped
between two commands leaves the store as it is at that moment; what the power
failure then keeps of its cache is `Store.cut`.  A theorem about all scripts is a
theorem about every place where a program can fail or be cut short.

`Runs env d m Q E C` is the triple of this monad: started with the store `d` in an
environment `env`, the program `m` ends in `Q` when it returns a value, in `E` when
it returns an error and in `C` when it is stopped.  The programs of interest
consist of barriers, a batch of writes and one flush.  `runs_barrier` is the rule
for them: either the whole batch is durable, or the images found afterwards are
images of the store with the batch in its cache.
-/

namespace CachedStorage

open List

/-- What the environment does with one command of a program. -/
inductive Fate (V : Type) where
  /-- The command completes. -/
  | done
  /-- The command reports an I/O error.  A failed write may still have `landed`
  in the cache; the accepted writes are resolved by `stored` and `held`. -/
  | fault (landed : Bool) (stored held : ℕ × V → Bool)
  /-- The program does not get past this command. -/
  | stop

/-- The fate is an I/O error. -/
def Fate.isFault {V : Type} : Fate V → Bool
  | .fault _ _ _ => true
  | _ => false

/-- The fate ends the program. -/
def Fate.isStop {V : Type} : Fate V → Bool
  | .stop => true
  | _ => false

/-- A store and what happens to it: the fates of the commands to come (commands
beyond the script complete), and for every look at the contents to come the
addresses whose reads fail then (none beyond the list). -/
structure Machine (V : Type) where
  store : Store V
  script : List (Fate V)
  unreadable : List (ℕ → Bool)

/-- A kind of environment: whether commands can report an error, and whether a
program can be stopped. -/
structure Env where
  faults : Bool
  stops : Bool

/-- The power can fail, but the device never reports an error. -/
def Env.faultless : Env := ⟨false, true⟩

/-- Nothing goes wrong. -/
def Env.quiet : Env := ⟨false, false⟩

/-- The machine runs in an environment of this kind. -/
structure Machine.Meets {V : Type} (s : Machine V) (env : Env) : Prop where
  unreadable : ∀ u ∈ s.unreadable, ∀ i, u i = true → env.faults = true
  faults : ∀ fate ∈ s.script, fate.isFault = true → env.faults = true
  stops : ∀ fate ∈ s.script, fate.isStop = true → env.stops = true

/-- A machine on which nothing goes wrong meets every environment. -/
theorem Machine.meets_nil {V : Type} (d : Store V) (env : Env) : Machine.Meets ⟨d, [], []⟩ env :=
  ⟨nofun, nofun, nofun⟩

/-- How a program ends: with a value, with an error, or stopped between two of its
commands. -/
inductive Outcome (ε α : Type) where
  | ok (value : α)
  | err (error : ε)
  | stopped
  deriving DecidableEq, Repr

/-- Programs over a store with elements `V` and errors `ε`. -/
def DiskM (V ε α : Type) : Type := Machine V → Outcome ε α × Machine V

variable {V ε ε' α β : Type} {Q' : β → Store V → Prop} {m : DiskM V ε α} {E' : ε' → Store V → Prop}

namespace DiskM

instance : Monad (DiskM V ε) where
  pure a := fun s => (.ok a, s)
  bind m f := fun s =>
    match m s with
    | (.ok a, s) => f a s
    | (.err e, s) => (.err e, s)
    | (.stopped, s) => (.stopped, s)

private theorem id_map_eq (m : DiskM V ε α) : id <$> m = m := by
  funext s
  show (match m s with
    | (.ok a, s) => (.ok a, s)
    | (.err e, s) => (.err e, s)
    | (.stopped, s) => (.stopped, s)) = m s
  rcases m s with ⟨_ | _ | _, s'⟩ <;> rfl

private theorem bind_assoc_eq {γ : Type} (m : DiskM V ε α) (f : α → DiskM V ε β)
    (g : β → DiskM V ε γ) : m >>= f >>= g = m >>= fun a => f a >>= g := by
  funext s
  show (match (match m s with
    | (.ok a, s) => f a s
    | (.err e, s) => (.err e, s)
    | (.stopped, s) => (.stopped, s)) with
    | (.ok b, s) => g b s
    | (.err e, s) => (.err e, s)
    | (.stopped, s) => (.stopped, s)) = (match m s with
    | (.ok a, s) => (f a >>= g) s
    | (.err e, s) => (.err e, s)
    | (.stopped, s) => (.stopped, s))
  rcases m s with ⟨_ | _ | _, s'⟩ <;> rfl

instance : LawfulMonad (DiskM V ε) :=
  LawfulMonad.mk' (DiskM V ε) id_map_eq (fun _ _ => rfl) bind_assoc_eq

variable {f : α → DiskM V ε β} {m : DiskM V ε α} {s s' : Machine V}

theorem bind_of_ok {a : α} (h : m s = (.ok a, s')) : (m >>= f) s = f a s' := by
  simp only [Bind.bind, h]

theorem bind_of_err {e : ε} (h : m s = (.err e, s')) : (m >>= f) s = (.err e, s') := by
  simp only [Bind.bind, h]

theorem bind_of_stopped (h : m s = (.stopped, s')) : (m >>= f) s = (.stopped, s') := by
  simp only [Bind.bind, h]

/-- Stop with an error. -/
def fail (e : ε) : DiskM V ε α := fun s => (.err e, s)

/-- Change the error a program reports. -/
def mapErr (f : ε → ε') (m : DiskM V ε α) : DiskM V ε' α := fun s =>
  match m s with
  | (.ok a, s) => (.ok a, s)
  | (.err e, s) => (.err (f e), s)
  | (.stopped, s) => (.stopped, s)

/-- Hand the result of a program to the caller, error or not. -/
def attempt (m : DiskM V ε α) : DiskM V ε' (Except ε α) := fun s =>
  match m s with
  | (.ok a, s) => (.ok (.ok a), s)
  | (.err e, s) => (.ok (.error e), s)
  | (.stopped, s) => (.stopped, s)

/-- Run a computation that does not touch the store. -/
def lift : Except ε α → DiskM V ε α
  | .ok a => pure a
  | .error e => fail e

/-- The contents as reads see them now; `none` where a read fails. -/
def peek : DiskM V ε (ℕ → Option V) := fun s =>
  match s.unreadable with
  | [] => (.ok fun i => some (s.store.visible i), s)
  | u :: rest =>
    (.ok fun i => if u i then none else some (s.store.visible i), { s with unreadable := rest })

/-- Take the next fate of the script. -/
private def next (s : Machine V) : Fate V × Machine V :=
  match s.script with
  | [] => (.done, s)
  | fate :: rest => (fate, { s with script := rest })

/-- One write; `io` is the error a fault reports. -/
def write (io : ε) (i : ℕ) (v : V) : DiskM V ε Unit := fun s =>
  match next s with
  | (.done, s) => (.ok (), { s with store := s.store.writeAll [(i, v)] })
  | (.fault landed stored held, s) =>
    let accepted := if landed then s.store.writeAll [(i, v)] else s.store
    (.err io, { s with store := accepted.resolve stored held })
  | (.stop, s) => (.stopped, s)

/-- One flush; `io` is the error a fault reports. -/
def flush (io : ε) : DiskM V ε Unit := fun s =>
  match next s with
  | (.done, s) => (.ok (), { s with store := s.store.flush })
  | (.fault _ stored held, s) => (.err io, { s with store := s.store.resolve stored held })
  | (.stop, s) => (.stopped, s)

/-- The writes `ws`, one after the other, up to the first that fails. -/
def writeEach (io : ε) : List (ℕ × V) → DiskM V ε Unit
  | [] => pure ()
  | w :: ws => do
      write io w.1 w.2
      writeEach io ws

theorem writeEach_append (io : ε) (ws vs : List (ℕ × V)) :
    writeEach io (ws ++ vs) = (writeEach io ws >>= fun _ => writeEach io vs) := by
  induction ws with
  | nil => rfl
  | cons w ws ih =>
    rw [cons_append, writeEach, ih, writeEach, bind_assoc]

/-- A batch of writes made durable by one flush. -/
def barrier (io : ε) (ws : List (ℕ × V)) : DiskM V ε Unit := do
  writeEach io ws
  flush io

end DiskM

open DiskM

/-! ## The triple -/

/-- Started with the store `d` in an environment `env`, `m` ends in `Q` if it returns
a value, in `E` if it returns an error and in `C` if it is stopped, whatever the
script is. -/
def Runs (env : Env) (d : Store V) (m : DiskM V ε α) (Q : α → Store V → Prop)
    (E : ε → Store V → Prop) (C : Store V → Prop) : Prop :=
  ∀ s : Machine V, s.store = d → s.Meets env →
    (m s).2.Meets env ∧
      match (m s).1 with
      | .ok a => Q a (m s).2.store
      | .err e => E e (m s).2.store
      | .stopped => C (m s).2.store

variable {env : Env} {d : Store V} {Q : α → Store V → Prop} {E : ε → Store V → Prop}
  {C : Store V → Prop}

theorem runs_pure {a : α} (h : Q a d) : Runs env d (pure a) Q E C := by
  rintro s rfl henv
  exact ⟨henv, h⟩

theorem runs_fail {e : ε} (h : E e d) : Runs env d (fail e) Q E C := by
  rintro s rfl henv
  exact ⟨henv, h⟩

theorem runs_lift {r : Except ε α} (hok : ∀ a, r = .ok a → Q a d)
    (herr : ∀ e, r = .error e → E e d) : Runs env d (lift r) Q E C := by
  cases r with
  | ok a => exact runs_pure (hok a rfl)
  | error e => exact runs_fail (herr e rfl)

theorem Runs.bind {f : α → DiskM V ε β} (hm : Runs env d m Q E C)
    (hf : ∀ a d', Q a d' → Runs env d' (f a) Q' E C) : Runs env d (m >>= f) Q' E C := by
  intro s hs henv
  obtain ⟨henv', hres⟩ := hm s hs henv
  change ((match m s with
    | (.ok a, s) => f a s
    | (.err e, s) => (.err e, s)
    | (.stopped, s) => (.stopped, s)) : Outcome ε β × Machine V).2.Meets env ∧ _
  rcases hms : m s with ⟨_ | _ | _, s'⟩
  · simp only [hms] at henv' hres
    simpa only [Bind.bind, hms] using hf _ _ hres s' rfl henv'
  · simp only [hms] at henv' hres
    exact ⟨henv', by simpa only [Bind.bind, hms] using hres⟩
  · simp only [hms] at henv' hres
    exact ⟨henv', by simpa only [Bind.bind, hms] using hres⟩

/-- A computation that does not touch the store, and the rest of the program. -/
theorem runs_lift_bind {r : Except ε α} {f : α → DiskM V ε β}
    (hok : ∀ a, r = .ok a → Runs env d (f a) Q' E C) (herr : ∀ e, r = .error e → E e d) :
    Runs env d (lift r >>= f) Q' E C := by
  refine Runs.bind (Q := fun a d' => d' = d ∧ r = .ok a) (runs_lift (fun a ha => ⟨rfl, ha⟩) herr) ?_
  rintro a d' ⟨rfl, ha⟩
  exact hok a ha

theorem Runs.weaken {Q' : α → Store V → Prop} {E' : ε → Store V → Prop} {C' : Store V → Prop}
    (h : Runs env d m Q E C) (hQ : ∀ a d', Q a d' → Q' a d') (hE : ∀ e d', E e d' → E' e d')
    (hC : ∀ d', C d' → C' d') : Runs env d m Q' E' C' := by
  intro s hs henv
  obtain ⟨henv', hres⟩ := h s hs henv
  refine ⟨henv', ?_⟩
  rcases hms : m s with ⟨_ | _ | _, s'⟩ <;> simp only [hms] at hres ⊢
  exacts [hQ _ _ hres, hE _ _ hres, hC _ hres]

/-- What every image has after a failure, weakened. -/
theorem Runs.images {Q' : α → Store V → Prop} {cause cause' stops : Prop} {P P' : (ℕ → V) → Prop}
    (h : Runs env d m Q (fun _ d' => cause ∧ ∀ v, d'.IsImage v → P v)
      fun d' => stops ∧ ∀ v, d'.IsImage v → P v)
    (hQ : ∀ a d', Q a d' → Q' a d') (hcause : cause → cause') (hP : ∀ v, P v → P' v) :
    Runs env d m Q' (fun _ d' => cause' ∧ ∀ v, d'.IsImage v → P' v)
      fun d' => stops ∧ ∀ v, d'.IsImage v → P' v :=
  h.weaken hQ (fun _ _ hd => ⟨hcause hd.1, fun v hv => hP v (hd.2 v hv)⟩)
    fun _ hd => ⟨hd.1, fun v hv => hP v (hd.2 v hv)⟩

theorem Runs.mapErr {f : ε → ε'}
    (h : Runs env d m Q (fun e d' => E' (f e) d') C) : Runs env d (m.mapErr f) Q E' C := by
  intro s hs henv
  obtain ⟨henv', hres⟩ := h s hs henv
  unfold DiskM.mapErr
  rcases hms : m s with ⟨_ | _ | _, s'⟩ <;> simp only [hms] at henv' hres ⊢ <;>
    exact ⟨henv', hres⟩

theorem runs_attempt {Q' : Except ε α → Store V → Prop}
    (h : Runs env d m (fun a d' => Q' (.ok a) d') (fun e d' => Q' (.error e) d') C) :
    Runs env d (m.attempt : DiskM V ε' _) Q' E' C := by
  intro s hs henv
  obtain ⟨henv', hres⟩ := h s hs henv
  unfold DiskM.attempt
  rcases hms : m s with ⟨_ | _ | _, s'⟩ <;> simp only [hms] at henv' hres ⊢ <;>
    exact ⟨henv', hres⟩

/-- A program that goes on with the result of another, error or not. -/
theorem runs_attempt_bind {f : Except ε α → DiskM V ε' β}
    (h : Runs env d m (fun a d' => Runs env d' (f (.ok a)) Q' E' C)
      (fun e d' => Runs env d' (f (.error e)) Q' E' C) C) :
    Runs env d (m.attempt >>= f) Q' E' C := by
  have hattempt : Runs env d m.attempt (fun r d' => Runs env d' (f r) Q' E' C) E' C :=
    runs_attempt h
  exact hattempt.bind fun _ _ hrest => hrest

/-- A look at the contents: the visible value of every address, or a failed read on a
device that has faults. -/
theorem runs_peek {Q : (ℕ → Option V) → Store V → Prop} (h : ∀ view : ℕ → Option V,
      (∀ i, view i = some (d.visible i) ∨ env.faults = true ∧ view i = none) → Q view d) :
    Runs env d (peek : DiskM V ε _) Q E C := by
  rintro s rfl henv
  unfold peek
  cases hu : s.unreadable with
  | nil => exact ⟨henv, h _ fun i => Or.inl rfl⟩
  | cons u rest =>
    have hmem : ∀ v ∈ rest, v ∈ s.unreadable := fun v hv => hu ▸ mem_cons_of_mem _ hv
    refine ⟨⟨fun v hv => henv.unreadable v (hmem v hv), henv.faults, henv.stops⟩, ?_⟩
    refine h _ fun i => ?_
    cases hi : u i with
    | false => exact Or.inl (if_neg Bool.false_ne_true)
    | true => exact Or.inr ⟨henv.unreadable u (hu ▸ mem_cons_self) i hi, if_pos rfl⟩

/-! ## Barriers -/

/-- The rest of a script is a script of the same kind, and its first fate is one the
environment allows. -/
private theorem Machine.Meets.next {s : Machine V} (h : s.Meets env) :
    (DiskM.next s).2.Meets env ∧ (DiskM.next s).2.store = s.store
      ∧ ((DiskM.next s).1.isFault = true → env.faults = true)
      ∧ ((DiskM.next s).1.isStop = true → env.stops = true) := by
  unfold DiskM.next
  cases hscript : s.script with
  | nil =>
    exact ⟨h, rfl, fun h => absurd h Bool.false_ne_true, fun h => absurd h Bool.false_ne_true⟩
  | cons fate rest =>
    have hmem : ∀ f ∈ rest, f ∈ s.script := fun f hf => hscript ▸ mem_cons_of_mem _ hf
    exact ⟨⟨h.unreadable, fun f hf => h.faults f (hmem f hf), fun f hf => h.stops f (hmem f hf)⟩,
      rfl, h.faults fate (hscript ▸ mem_cons_self), h.stops fate (hscript ▸ mem_cons_self)⟩

private theorem runs_write (io : ε) (i : ℕ) (v : V) :
    Runs env d (write io i v) (fun _ d' => d' = d.writeAll [(i, v)])
      (fun e d' => env.faults = true ∧ e = io ∧ (d.writeAll [(i, v)]).Within d')
      (fun d' => env.stops = true ∧ d' = d) := by
  rintro s rfl henv
  obtain ⟨hrest, hstore, hfault, hstop⟩ := henv.next
  unfold write
  rcases hnext : DiskM.next s with ⟨_ | ⟨landed, stored, held⟩ | _, s'⟩ <;>
    simp only [hnext] at hrest hstore hfault hstop ⊢
  · exact ⟨⟨hrest.unreadable, hrest.faults, hrest.stops⟩, by rw [hstore]⟩
  · refine ⟨⟨hrest.unreadable, hrest.faults, hrest.stops⟩, hfault rfl, trivial, ?_⟩
    cases landed with
    | false =>
      rw [hstore]
      exact (s.store.within_writeAll _).trans (Store.within_resolve _ _ _)
    | true =>
      rw [hstore]
      exact Store.within_resolve _ _ _
  · exact ⟨hrest, hstop rfl, hstore⟩

/-- A flush makes the visible contents durable; a failed one only loses
possibilities. -/
theorem runs_flush (io : ε) : Runs env d (flush io) (fun _ d' => d' = d.flush)
      (fun e d' => env.faults = true ∧ e = io ∧ d.Within d')
      (fun d' => env.stops = true ∧ d' = d) := by
  rintro s rfl henv
  obtain ⟨hrest, hstore, hfault, hstop⟩ := henv.next
  unfold flush
  rcases hnext : DiskM.next s with ⟨_ | ⟨landed, stored, held⟩ | _, s'⟩ <;>
    simp only [hnext] at hrest hstore hfault hstop ⊢
  · exact ⟨⟨hrest.unreadable, hrest.faults, hrest.stops⟩, by rw [hstore]⟩
  · refine ⟨⟨hrest.unreadable, hrest.faults, hrest.stops⟩, hfault rfl, trivial, ?_⟩
    rw [hstore]
    exact Store.within_resolve _ _ _
  · exact ⟨hrest, hstop rfl, hstore⟩

/-- Writes without a flush: all accepted, or a prefix of them when stopped. -/
theorem runs_writeEach (io : ε) (ws : List (ℕ × V)) :
    Runs env d (writeEach io ws) (fun _ d' => d' = d.writeAll ws)
      (fun e d' => env.faults = true ∧ e = io ∧ (d.writeAll ws).Within d')
      (fun d' => env.stops = true ∧ ∃ vs, vs <+: ws ∧ d' = d.writeAll vs) := by
  induction ws generalizing d with
  | nil => exact runs_pure (Store.writeAll_nil d).symm
  | cons w ws ih =>
    have hcons : ∀ vs, d.writeAll (w :: vs) = (d.writeAll [w]).writeAll vs :=
      Store.writeAll_append d [w]
    refine Runs.bind ((runs_write io w.1 w.2).weaken (fun _ _ h => h) ?_ ?_) ?_
    · intro e d' h
      refine ⟨h.1, h.2.1, Store.Within.trans ?_ h.2.2⟩
      rw [hcons]
      exact Store.within_writeAll _ _
    · intro d' h
      exact ⟨h.1, [], nil_prefix, by rw [h.2, Store.writeAll_nil]⟩
    · rintro _ d' rfl
      rw [hcons ws]
      refine ih.weaken (fun _ _ h => h) (fun _ _ h => h) ?_
      rintro d' ⟨hstop, vs, hvs, rfl⟩
      exact ⟨hstop, w :: vs, (prefix_cons_inj w).mpr hvs, (hcons vs).symm⟩

/-- A barrier makes its whole batch durable.  Otherwise the images found
afterwards are images of the store with the batch in its cache. -/
theorem runs_barrier (io : ε) (ws : List (ℕ × V)) :
    Runs env d (barrier io ws) (fun _ d' => d' = ⟨overwrite d.visible ws, []⟩)
      (fun e d' => env.faults = true ∧ e = io ∧ (d.writeAll ws).Within d')
      (fun d' => env.stops = true ∧ ∃ vs, vs <+: ws ∧ d' = d.writeAll vs) := by
  refine (runs_writeEach io ws).bind ?_
  rintro _ d' rfl
  refine (runs_flush io).weaken ?_ (fun _ _ h => h) ?_
  · rintro _ d' rfl
    rw [Store.flush, Store.visible_writeAll]
  · rintro d' ⟨hstop, rfl⟩
    exact ⟨hstop, ws, prefix_rfl, rfl⟩

/-- A store stopped inside a batch has only images of the whole batch. -/
theorem Store.within_writeAll_of_isPrefix (d : Store V) {vs ws : List (ℕ × V)} (h : vs <+: ws) :
    (d.writeAll ws).Within (d.writeAll vs) := by
  obtain ⟨rest, rfl⟩ := h
  rw [Store.writeAll_append]
  exact Store.within_writeAll _ _

/-!
## Programs that stay within a set of addresses

`Confined P m`: the program `m` writes to addresses in `P` only.  Outside `P` whatever
it leaves behind was already possible before, however it ends.  A program over one part
of a store therefore keeps every fact about the rest.  The rules follow the commands of
`DiskM`; `Runs.and` joins the result with what a triple says about the part itself.
-/

open DiskM

variable {V ε ε' α β : Type} {P : ℕ → Prop} {d d' d'' : Store V} {m : DiskM V ε α}

/-! ### Stores -/

/-- Outside `P` every image of `d'` is an image of `d`. -/
def Store.WithinOff (P : ℕ → Prop) (d d' : Store V) : Prop :=
  ∀ c', d'.IsImage c' → ∃ c, d.IsImage c ∧ ∀ i, ¬ P i → c' i = c i

theorem Store.Within.off (h : d.Within d') : d.WithinOff P d' :=
  fun c hc => ⟨c, h c hc, fun _ _ => rfl⟩

theorem Store.WithinOff.refl (d : Store V) : d.WithinOff P d := (Store.Within.refl d).off

theorem Store.WithinOff.trans (h : d.WithinOff P d') (h' : d'.WithinOff P d'') :
    d.WithinOff P d'' := by
  intro c'' hc''
  obtain ⟨c', hc', heq'⟩ := h' c'' hc''
  obtain ⟨c, hc, heq⟩ := h c' hc'
  exact ⟨c, hc, fun i hi => (heq' i hi).trans (heq i hi)⟩

/-- Accepted writes inside `P` change nothing outside. -/
theorem Store.withinOff_writeAll {ws : List (ℕ × V)} (h : ∀ w ∈ ws, P w.1) :
    d.WithinOff P (d.writeAll ws) := by
  classical
  intro c' hc'
  refine ⟨fun i => if P i then d.durable i else c' i, fun i => ?_, fun i hi => (if_neg hi).symm⟩
  by_cases hi : P i
  · exact Or.inl (if_pos hi)
  · simp only [if_neg hi]
    rcases hc' i with hdurable | hmem
    · exact Or.inl hdurable
    · rcases List.mem_append.mp hmem with hpending | hwritten
      · exact Or.inr hpending
      · exact absurd (h _ hwritten) hi

/-- A store without accepted writes has one content. -/
theorem Store.WithinOff.eq {c₀ c : ℕ → V} (h : Store.WithinOff P ⟨c₀, []⟩ d) (hc : d.IsImage c)
    {i : ℕ} (hi : ¬ P i) : c i = c₀ i := by
  obtain ⟨c₁, hc₁, heq⟩ := h c hc
  rw [heq i hi, Store.isImage_mk_nil.mp hc₁]

/-! ### Programs -/

/-- The program writes to addresses in `P` only. -/
def Confined (P : ℕ → Prop) (m : DiskM V ε α) : Prop :=
  ∀ (env : Env) (d : Store V),
    Runs env d m (fun _ => d.WithinOff P) (fun _ => d.WithinOff P) (d.WithinOff P)

theorem confined_pure (a : α) : Confined P (pure a : DiskM V ε α) :=
  fun _ d => runs_pure (Store.WithinOff.refl d)

theorem confined_fail (e : ε) : Confined P (fail e : DiskM V ε α) :=
  fun _ d => runs_fail (Store.WithinOff.refl d)

theorem confined_lift (r : Except ε α) : Confined P (lift r : DiskM V ε α) :=
  fun _ d => runs_lift (fun _ _ => Store.WithinOff.refl d) fun _ _ => Store.WithinOff.refl d

theorem confined_peek : Confined P (peek : DiskM V ε (ℕ → Option V)) :=
  fun _ d => runs_peek fun _ _ => Store.WithinOff.refl d

theorem confined_flush (io : ε) : Confined P (flush io : DiskM V ε Unit) := by
  intro env d
  refine (runs_flush io).weaken ?_ (fun _ _ h => h.2.2.off) ?_
  · rintro _ _ rfl
    exact (Store.within_flush d).off
  · intro d' h
    rw [h.2]
    exact Store.WithinOff.refl d

theorem confined_writeEach (io : ε) {ws : List (ℕ × V)} (h : ∀ w ∈ ws, P w.1) :
    Confined P (writeEach io ws) := by
  intro env d
  have hall : d.WithinOff P (d.writeAll ws) := Store.withinOff_writeAll h
  refine (runs_writeEach io ws).weaken ?_ (fun _ _ hd => hall.trans hd.2.2.off) ?_
  · rintro _ _ rfl
    exact hall
  · rintro _ ⟨-, vs, hvs, rfl⟩
    exact hall.trans (Store.within_writeAll_of_isPrefix _ hvs).off

theorem confined_write (io : ε) {i : ℕ} (h : P i) (v : V) :
    Confined P (write io i v : DiskM V ε Unit) := by
  have hone : (write io i v : DiskM V ε Unit) = writeEach io [(i, v)] :=
    (bind_pure (write io i v)).symm
  rw [hone]
  exact confined_writeEach io fun w hw => by rwa [List.mem_singleton.mp hw]

theorem Confined.bind {f : α → DiskM V ε β} (hm : Confined P m)
    (hf : ∀ a, Confined P (f a)) : Confined P (m >>= f) := by
  intro env d
  refine (hm env d).bind fun a d' hd' => ?_
  exact (hf a env d').weaken (fun _ _ h => hd'.trans h) (fun _ _ h => hd'.trans h)
    fun _ h => hd'.trans h

/-- A computation that does not touch the store, and the rest of the program. -/
theorem confined_lift_bind {r : Except ε α} {f : α → DiskM V ε β}
    (hf : ∀ a, r = .ok a → Confined P (f a)) : Confined P (lift r >>= f) :=
  fun env d => runs_lift_bind (fun a ha => hf a ha env d) fun _ _ => Store.WithinOff.refl d

theorem Confined.mapErr (hm : Confined P m) (f : ε → ε') : Confined P (m.mapErr f) :=
  fun env d => Runs.mapErr (hm env d)

theorem Confined.attempt (hm : Confined P m) : Confined P (m.attempt : DiskM V ε' _) :=
  fun env d => runs_attempt (hm env d)

/-- Two triples of one program. -/
theorem Runs.and {env : Env} {Q Q' : α → Store V → Prop} {E E' : ε → Store V → Prop}
    {C C' : Store V → Prop} (h : Runs env d m Q E C) (h' : Runs env d m Q' E' C') :
    Runs env d m (fun a d => Q a d ∧ Q' a d) (fun e d => E e d ∧ E' e d) (fun d => C d ∧ C' d) := by
  intro s hs henv
  obtain ⟨hmeets, hres⟩ := h s hs henv
  obtain ⟨-, hres'⟩ := h' s hs henv
  refine ⟨hmeets, ?_⟩
  rcases hms : m s with ⟨_ | _ | _, s'⟩ <;> rw [hms] at hres hres' <;> exact ⟨hres, hres'⟩

end CachedStorage
