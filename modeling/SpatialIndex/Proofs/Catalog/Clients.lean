import Mathlib.Logic.Function.Basic
import SpatialIndex.Proofs.Catalog.Changes

/-!
# Clients of one catalog

Any number of clients use a catalog.  Making an index is not one step: a client has its definition
checked, then has a tree built or one that it has brought checked, and then has the index published,
and between these steps other clients may do what they like.  A run is a list of single steps in any
order.  What the earlier steps have found out may be out of date by the last one, which therefore
checks again; every run keeps the names apart nevertheless.
-/

namespace SpatialIndex

/-- How far a client's call to make an index has come. -/
inductive Stage
  /-- There is no such call. -/
  | idle
  /-- The definition has been checked; over a given tree or over one to be built. -/
  | prepared (t : Table) (d : IndexDefinition) (given : Option Tree)
  /-- The tree has been built or checked. -/
  | ready (t : Table) (d : IndexDefinition) (tree : Tree)

/-- The table and the definition of a call. -/
def Stage.call? : Stage → Option (Table × IndexDefinition)
  | idle => none
  | prepared t d _ => some (t, d)
  | ready t d _ => some (t, d)

/-- What a client may do in one step. -/
inductive Move
  /-- It creates a table. -/
  | createTable (name : String) (columns : List ColumnDefinition) (kind : TableKind)
    (storage : Storage)
  /-- It takes a table off the list. -/
  | dropTable (name : String)
  /-- It appends a row. -/
  | append (t : Table) (row : Row)
  /-- It takes an index off its table. -/
  | dropIndex (name : String)
  /-- It begins to make an index, over a given tree or over one to be built. -/
  | prepare (d : IndexDefinition) (given : Option Tree)
  /-- It has the tree built or checked. -/
  | build
  /-- It publishes the index. -/
  | publish

/-- A step of a client, the clients being told apart by numbers. -/
structure Event where
  /-- Whose step it is. -/
  client : Nat
  /-- What is done. -/
  move : Move

/-- The event drops an index of this name or a table of the name of its table. -/
def Event.Drops (e : Event) (index : Index) : Prop :=
  e.move = .dropIndex index.name ∨ e.move = .dropTable index.table

/-- A catalog with its clients. -/
structure System where
  /-- The catalog that they share. -/
  catalog : Catalog
  /-- How far the call of each client has come. -/
  stage : Nat → Stage

namespace System

open Catalog (prepareIndex buildIndex publishIndex createIndex attachIndex dropIndex)

/-- The catalog is empty and no call has begun. -/
def start (config : Config) (functions : Registry) : System where
  catalog := { config, functions }
  stage _ := .idle

/-- The operation on the catalog that an event is.  Nothing is published before its turn. -/
def operation? (s : System) (e : Event) : Option Catalog.Operation :=
  match e.move with
  | .createTable name columns kind storage => some (.createTable name columns kind storage)
  | .dropTable name => some (.dropTable name)
  | .append t row => some (.append t row)
  | .dropIndex name => some (.dropIndex name)
  | .prepare _ _ => none
  | .build => none
  | .publish =>
    match s.stage e.client with
    | .ready t d tree => some (.publishIndex t d tree)
    | _ => none

/-- How far the call of the client has come after its event.  A step that fails ends the call, and
one whose turn it is not does nothing. -/
def nextStage (s : System) (e : Event) : Stage :=
  match e.move, s.stage e.client with
  | .prepare d given, .idle =>
    match ((prepareIndex d).run.run s.catalog).1 with
    | .ok t => .prepared t d given
    | .error _ => .idle
  | .build, .prepared t d none =>
    match ((buildIndex t d).run.run s.catalog).1 with
    | .ok tree => .ready t d tree
    | .error _ => .idle
  | .build, .prepared t d (some tree) =>
    match tree.validate with
    | .ok () => .ready t d tree
    | .error _ => .idle
  | .publish, .ready _ _ _ => .idle
  | _, stage => stage

/-- The system after an event. -/
def step (s : System) (e : Event) : System where
  catalog :=
    match s.operation? e with
    | some operation => s.catalog.after operation
    | none => s.catalog
  stage := Function.update s.stage e.client (s.nextStage e)

/-- The system after events of any clients in any order. -/
def run (s : System) (events : List Event) : System := events.foldl step s

/-- The index that an event publishes, if it does and that succeeds. -/
def published? (s : System) (e : Event) : Option Index :=
  match e.move, s.stage e.client with
  | .publish, .ready t d tree => ((publishIndex t d tree).run.run s.catalog).1.toOption
  | _, _ => none

variable {s : System} {e : Event} {t : Table} {d : IndexDefinition} {tree : Tree} {index : Index}

/-- An event takes the call of its client, and of no other, to the next stage. -/
theorem stage_step_self (s : System) (e : Event) : (s.step e).stage e.client = s.nextStage e :=
  Function.update_self _ _ _

/-- An event leaves the calls of other clients alone. -/
theorem stage_step_of_ne {client : Nat} (h : client ≠ e.client) :
    (s.step e).stage client = s.stage client :=
  Function.update_of_ne h _ _

/-- Without events nothing happens. -/
@[simp] theorem run_nil (s : System) : s.run [] = s := rfl

/-- A call whose steps come right after each other makes the index as in one step. -/
theorem run_call (client : Nat) (d : IndexDefinition) (given : Option Tree)
    (hidle : s.stage client = .idle) :
    let make := match given with
      | none => createIndex d
      | some tree => attachIndex d tree
    let begun := s.run [⟨client, .prepare d given⟩, ⟨client, .build⟩]
    begun.published? ⟨client, .publish⟩ = (make.run.run s.catalog).1.toOption ∧
      (begun.step ⟨client, .publish⟩).catalog = (make.run.run s.catalog).2 := by
  -- Nothing comes between the steps, so each of them finds the catalog as the one before has left
  -- it.
  cases given with
  | none =>
    dsimp only
    rw [Catalog.createIndex_run]
    cases hprepared : s.catalog.prepared d with
    | error cause =>
      simp [run, step, operation?, nextStage, published?, hidle, Catalog.prepareIndex_run,
        hprepared, Except.toOption]
    | ok t =>
      cases hbuild : d.build (s.catalog.storage t) s.catalog.functions s.catalog.config with
      | error cause =>
        simp [run, step, operation?, nextStage, published?, hidle, Catalog.prepareIndex_run,
          hprepared, Catalog.buildIndex_run, hbuild, Except.toOption]
      | ok tree =>
        simp [run, step, operation?, nextStage, published?, hidle, Catalog.prepareIndex_run,
          hprepared, Catalog.buildIndex_run, hbuild, Catalog.after]
  | some tree =>
    dsimp only
    rw [Catalog.attachIndex_run]
    cases hprepared : s.catalog.prepared d with
    | error cause =>
      simp [run, step, operation?, nextStage, published?, hidle, Catalog.prepareIndex_run,
        hprepared, Except.toOption]
    | ok t =>
      cases hcheck : tree.validate with
      | error violation =>
        simp [run, step, operation?, nextStage, published?, hidle, Catalog.prepareIndex_run,
          hprepared, hcheck, Except.toOption]
      | ok _ =>
        simp [run, step, operation?, nextStage, published?, hidle, Catalog.prepareIndex_run,
          hprepared, hcheck, Catalog.after]

/-- Names are apart, and the table of every call is one that was created and that the definition of
the call names. -/
structure Sound (s : System) : Prop where
  /-- Names tell tables and indexes apart. -/
  orderly : s.catalog.Orderly
  /-- The table of a call is there, listed or not. -/
  inFlight : ∀ client t d, (s.stage client).call? = some (t, d) →
    t.name = d.table ∧ ∃ entry, s.catalog.entries[t.id]? = some entry ∧ entry.table = t

/-- Before the first event the names are apart and there are no calls. -/
theorem sound_start (config : Config) (functions : Registry) : (start config functions).Sound where
  orderly :=
    { id := by simp [start]
      nodup := by simp [start]
      listed_lt := by simp [start]
      listed_nodup := List.nodup_nil
      table_unique := by simp [start, Catalog.IsListed]
      index_unique := by simp [start, Catalog.IsListed]
      owner := by simp [start] }
  inFlight := by simp [start, Stage.call?]

/-- Only a call whose turn it is publishes. -/
theorem stage_of_operation? (h : s.operation? e = some (.publishIndex t d tree)) :
    s.stage e.client = .ready t d tree := by
  cases hmove : e.move with
  | publish =>
    simp only [operation?, hmove] at h
    split at h
    · rename_i hstage
      cases h
      exact hstage
    · cases h
  | _ => simp [operation?, hmove] at h

/-- An operation drops no more than the event does that it comes from. -/
theorem drops_of_operation? {operation : Catalog.Operation} (h : s.operation? e = some operation)
    (hdrops : operation.Drops index) : e.Drops index := by
  rcases hdrops with rfl | rfl
  · left
    cases hmove : e.move with
    | dropIndex name =>
      simp only [operation?, hmove, Option.some.injEq] at h
      rw [Catalog.Operation.dropIndex.inj h]
    | publish =>
      simp only [operation?, hmove] at h
      split at h <;> cases h
    | _ => simp [operation?, hmove] at h
  · right
    cases hmove : e.move with
    | dropTable name =>
      simp only [operation?, hmove, Option.some.injEq] at h
      rw [Catalog.Operation.dropTable.inj h]
    | publish =>
      simp only [operation?, hmove] at h
      split at h <;> cases h
    | _ => simp [operation?, hmove] at h

/-- A call goes on with the table and definition that it has, or begins with those that have just
been checked. -/
theorem call?_nextStage (h : (s.nextStage e).call? = some (t, d)) :
    (s.stage e.client).call? = some (t, d) ∨ s.catalog.prepared d = .ok t := by
  unfold nextStage at h
  split at h
  · rw [Catalog.prepareIndex_run] at h
    split at h
    · rename_i hprepared
      cases h
      exact .inr hprepared
    · cases h
  · rename_i hstage
    rw [hstage]
    split at h
    · exact .inl h
    · cases h
  · rename_i hstage
    rw [hstage]
    split at h
    · exact .inl h
    · cases h
  · cases h
  · exact .inl h

/-- What a publishing event publishes is the index of the call whose turn it is. -/
theorem of_published? (h : s.published? e = some index) : ∃ t d tree,
    s.stage e.client = .ready t d tree ∧ s.operation? e = some (.publishIndex t d tree) ∧
      ((publishIndex t d tree).run.run s.catalog).1 = .ok index := by
  unfold published? at h
  split at h
  · rename_i t d tree hmove hstage
    refine ⟨t, d, tree, hstage, by rw [operation?, hmove]; dsimp only; rw [hstage], ?_⟩
    cases hresult : ((publishIndex t d tree).run.run s.catalog).1 with
    | error cause =>
      rw [hresult] at h
      cases h
    | ok found =>
      rw [hresult] at h
      exact congrArg Except.ok (Option.some.inj h)
  · cases h

namespace Sound

/-- The operation that an event is publishes only on the table that the definition names. -/
theorem fits (h : s.Sound) {operation : Catalog.Operation} (ho : s.operation? e = some operation) :
    operation.Fits := by
  cases operation with
  | publishIndex t d tree =>
    have hstage := stage_of_operation? ho
    exact (h.inFlight e.client t d (by rw [hstage]; rfl)).1
  | _ => trivial

/-- What holds of the catalog and after every change that the event may make holds afterwards. -/
theorem of_change (h : s.Sound) {P : Catalog → Prop} (hsame : P s.catalog)
    (hchange : ∀ operation c', s.catalog.Change operation c' → operation.Fits →
      (∀ index, operation.Drops index → e.Drops index) → P c') : P (s.step e).catalog := by
  unfold step
  cases ho : s.operation? e with
  | none => exact hsame
  | some operation =>
    exact hchange operation _ (Catalog.change_after _ operation) (h.fits ho)
      fun index => drops_of_operation? ho

/-- The catalog after an event comes after the one before. -/
theorem follows_step (h : s.Sound) (e : Event) : (s.step e).catalog.Follows s.catalog :=
  h.of_change (.refl _) fun _ _ hchange _ _ => hchange.follows

/-- Every event keeps a system sound. -/
theorem step (h : s.Sound) (e : Event) : (s.step e).Sound := by
  have hfollows := h.follows_step e
  refine ⟨h.of_change h.orderly fun _ _ hchange hfits _ => hchange.orderly hfits h.orderly, ?_⟩
  intro client t d hcall
  have hold (hcall : (s.stage client).call? = some (t, d)) : t.name = d.table ∧
      ∃ entry, (s.step e).catalog.entries[t.id]? = some entry ∧ entry.table = t := by
    obtain ⟨hname, entry, hentry, rfl⟩ := h.inFlight client t d hcall
    exact ⟨hname, hfollows.table hentry⟩
  by_cases hclient : client = e.client
  · subst hclient
    rw [stage_step_self] at hcall
    rcases call?_nextStage hcall with hcall | hprepared
    · exact hold hcall
    · refine ⟨Catalog.name_of_prepared hprepared, ?_⟩
      obtain ⟨_, hlookup⟩ := Catalog.table_eq_ok (Catalog.of_prepared hprepared).1
      obtain ⟨entry, hentry, rfl⟩ := Option.map_eq_some_iff.mp hlookup
      obtain ⟨⟨id, hlisted⟩, _⟩ := h.orderly.listed?_eq_some_iff.mp hentry
      refine hfollows.table ?_
      rw [h.orderly.id hlisted.2]
      exact hlisted.2
  · rw [stage_step_of_ne hclient] at hcall
    exact hold hcall

/-- Any number of events keeps the system sound, and its catalog comes after the one before. -/
theorem run (h : s.Sound) (events : List Event) :
    (s.run events).Sound ∧ (s.run events).catalog.Follows s.catalog := by
  induction events generalizing s with
  | nil => exact ⟨h, .refl _⟩
  | cons e events ih =>
    obtain ⟨hsound, hfollows⟩ := ih (h.step e)
    exact ⟨hsound, hfollows.trans (h.follows_step e)⟩

/-- An index can be found as long as neither it nor its table is dropped. -/
theorem index?_run (h : s.Sound) (hindex : s.catalog.index? index.name = some index)
    {later : List Event} (hkeeps : ∀ e ∈ later, ¬e.Drops index) :
    (s.run later).catalog.index? index.name = some index := by
  induction later generalizing s with
  | nil => exact hindex
  | cons e later ih =>
    rw [List.forall_mem_cons] at hkeeps
    refine ih (h.step e) ?_ hkeeps.2
    apply h.of_change (P := fun c => c.index? index.name = some index) hindex
    intro operation c' hchange hfits hdrops
    exact hchange.index?_eq_some hfits h.orderly hindex fun hdrop => hkeeps.1 (hdrops index hdrop)

/-- What was published is found by its name. -/
theorem index?_step (h : s.Sound) (hpublished : s.published? e = some index) :
    (s.step e).catalog.index? index.name = some index := by
  obtain ⟨t, d, tree, hstage, ho, hok⟩ := of_published? hpublished
  have hname := (h.inFlight e.client t d (by rw [hstage]; rfl)).1
  have hfound := h.orderly.index?_of_publishIndex hname hok
  rw [System.step, ho]
  exact hfound

/-- What is published had a free name. -/
theorem index?_of_published? (hpublished : s.published? e = some index) :
    s.catalog.index? index.name = none := by
  obtain ⟨t, d, tree, _, _, hok⟩ := of_published? hpublished
  obtain ⟨_, hfree, rfl⟩ := Catalog.of_publishIndex hok
  exact hfree

/-- A call whose turn it is publishes exactly if its very table is listed and the name is free. -/
theorem isSome_published?_iff (h : s.Sound) {client : Nat}
    (hstage : s.stage client = .ready t d tree) :
    (s.published? ⟨client, .publish⟩).isSome = true ↔
      (s.catalog.listed? t.name).map (·.table) = some t ∧ s.catalog.index? d.name = none := by
  obtain ⟨_, entry, hentry, htable⟩ := h.inFlight client t d (by rw [hstage]; rfl)
  constructor
  · intro hsome
    obtain ⟨index, hindex⟩ := Option.isSome_iff_exists.mp hsome
    obtain ⟨t', d', tree', hstage', _, hok⟩ := of_published? hindex
    cases hstage.symm.trans hstage'
    obtain ⟨hlisted, hfree, _⟩ := Catalog.of_publishIndex hok
    obtain ⟨found, hfound, _⟩ := h.orderly.exists_isListed hlisted
    cases hfound.2.symm.trans hentry
    exact ⟨h.orderly.listed?_table_iff.mpr ⟨entry, hfound, htable⟩, hfree⟩
  · rintro ⟨hlisted, hfree⟩
    have hid : (s.catalog.listed? t.name).map (·.table.id) = some t.id := by
      simpa using congrArg (Option.map (·.id)) hlisted
    simp only [published?, hstage]
    rw [Catalog.publishIndex_run, if_neg (not_not.mpr hid), if_neg (by simp [hfree])]
    rfl

end Sound

/-- What can be relied on between any two steps. -/
structure Safe (s : System) : Prop where
  /-- No two indexes of listed tables have one name. -/
  names : (s.catalog.listedEntries.flatMap fun entry => entry.indexes.map (·.name)).Nodup
  /-- Finding and dropping an index do not depend on the order in which tables are listed. -/
  order : ∀ l : List TableId, l.Perm s.catalog.listed → ∀ name : String,
    ({ s.catalog with listed := l } : Catalog).index? name = s.catalog.index? name ∧
      (dropIndex name).run.run { s.catalog with listed := l } =
        (((dropIndex name).run.run s.catalog).1,
          { ((dropIndex name).run.run s.catalog).2 with listed := l })
  /-- An index names the table that it is on. -/
  owner : ∀ entry ∈ s.catalog.listedEntries, ∀ index ∈ entry.indexes,
    index.table = entry.table.name
  /-- The table of a call was created before. -/
  created : ∀ client t d, (s.stage client).call? = some (t, d) → t.id < s.catalog.entries.size

/-- In a sound system all can be relied on that is to be relied on between two steps. -/
theorem Sound.safe (h : s.Sound) : s.Safe where
  names := h.orderly.nodup_names
  order l hl name := h.orderly.lookup_perm hl name
  owner entry hentry index hindex := by
    obtain ⟨id, hlisted⟩ := Catalog.mem_listedEntries.mp hentry
    exact h.orderly.owner hlisted.2 index hindex
  created client t d hcall := by
    obtain ⟨_, entry, hentry, _⟩ := h.inFlight client t d hcall
    exact (Array.getElem?_eq_some_iff.mp hentry).1

/-- Whatever clients do and in whatever order their steps come, names stay apart.  A call whose turn
it is publishes exactly if its very table is listed and the name is free; the table has then been
listed at all times since it was created, so one that has taken its name does not do.  What was
published can be found until it is dropped or its table is, and until then nothing else of its name
is published. -/
theorem run_safe (config : Config) (functions : Registry) (before later : List Event) :
    let s := (start config functions).run before
    let s' := s.run later
    s.Safe ∧
    (∀ client t d tree, s'.stage client = .ready t d tree →
      ((s'.published? ⟨client, .publish⟩).isSome = true ↔
        (s'.catalog.listed? t.name).map (·.table) = some t ∧ s'.catalog.index? d.name = none) ∧
      ((s'.published? ⟨client, .publish⟩).isSome = true → t.id < s.catalog.entries.size →
        (s.catalog.listed? t.name).map (·.table) = some t)) ∧
    ∀ e index, s.published? e = some index → (∀ e' ∈ later, ¬e'.Drops index) →
      ((s.step e).run later).catalog.index? index.name = some index ∧
        ∀ e' other, ((s.step e).run later).published? e' = some other →
          other.name ≠ index.name := by
  intro s s'
  have h : s.Sound := ((sound_start config functions).run before).1
  obtain ⟨h', hfollows⟩ : s'.Sound ∧ s'.catalog.Follows s.catalog := h.run later
  refine ⟨h.safe, ?_, ?_⟩
  · intro client t d tree hstage
    have hpublished := h'.isSome_published?_iff hstage
    refine ⟨hpublished, fun hsome hcreated => ?_⟩
    exact hfollows.listed?_table h.orderly h'.orderly (hpublished.mp hsome).1 hcreated
  · intro e index hpublished hkeeps
    have hvisible := (h.step e).index?_run (h.index?_step hpublished) hkeeps
    refine ⟨hvisible, fun e' other hother hname => ?_⟩
    have hfree := Sound.index?_of_published? hother
    rw [hname, hvisible] at hfree
    cases hfree

/-- Two clients find a name free before either of them publishes.  Each could, but not both. -/
theorem run_safe_two_clients :
    let create (name : String) : Move := .createTable name [⟨"geom", .geometry⟩] .native ⟨1, #[]⟩
    let definition (table : String) : IndexDefinition :=
      ⟨"places", table, [.column ⟨0, 0⟩ .geometry], [0]⟩
    let before : List Event := [⟨0, create "a"⟩, ⟨0, create "b"⟩,
      ⟨0, .prepare (definition "a") (some (.empty 16))⟩,
      ⟨1, .prepare (definition "b") (some (.empty 16))⟩, ⟨0, .build⟩, ⟨1, .build⟩]
    let s := (start {} .empty).run before
    (s.published? ⟨1, .publish⟩).isSome = true ∧
    ∃ t index, s.published? ⟨0, .publish⟩ = some index ∧
      (s.catalog.listed? t.name).map (·.table) = some t ∧
      (s.step ⟨0, .publish⟩).catalog.index? index.name = some index ∧
      ∀ other, (s.step ⟨0, .publish⟩).published? ⟨1, .publish⟩ = some other →
        other.name ≠ index.name := by
  intro create definition before s
  have hsome : (s.published? ⟨0, .publish⟩).isSome = true := by decide +kernel
  obtain ⟨index, hindex⟩ := Option.isSome_iff_exists.mp hsome
  obtain ⟨t, d, tree, hstage, _⟩ := of_published? hindex
  obtain ⟨hsafe, hlisted, hvisible⟩ := run_safe {} .empty before []
  simp only [run_nil] at hlisted hvisible
  obtain ⟨hfound, hother⟩ := hvisible ⟨0, .publish⟩ index hindex (by simp)
  have hcreated := hsafe.created 0 t d (congrArg Stage.call? hstage)
  refine ⟨by decide +kernel, t, index, hindex, ?_, hfound, hother _⟩
  exact (hlisted 0 t d tree hstage).2 hsome hcreated

end System

end SpatialIndex
