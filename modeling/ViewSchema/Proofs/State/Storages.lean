import ViewSchema.Proofs.State.Durability

/-!
# What the storages of a store hold

What a look into the storages finds depends on the session and on what is loaded from the file,
whether or not the file has been read before.  Two stores on one directory are level when both
are the same for them; every operation on the storages keeps them level, and changes what they
hold under one key at most.

Main results:

- Theorem `Store.stored_snd`: what a look into the storages finds.
- Definition `Store.Level`: two stores on one directory whose storages hold the same, whichever
  of them has read its file.
- Definition `Store.Touches`: an operation on the storages that changes one key at most.
- Theorems `Store.touches_putStored` and `Store.touches_erase`: storing a value and erasing it.
-/

namespace ViewSchema

/-- What stands in the way of a directory remains there. -/
theorem StateDirectory.obstacle_write (d : StateDirectory) (text : String) :
    (d.write text).1.obstacle = d.obstacle := by
  unfold StateDirectory.write
  split <;> rename_i h <;> simp [h]

namespace Store

variable {s t u : Store} {d e : StateDirectory} {key other : String} {value : Json}
  {storage : Option StorageKind} {fields : List (String × Json)}

/-- A store whose directory is in another condition. -/
def within (s : Store) (directory : StateDirectory) : Store := { s with directory }

/-! ## Loading -/

/-- Loading keeps all but what is kept of the file. -/
theorem load_eq (s : Store) : s.load.1 = { s with saved := s.load.1.saved } := by
  unfold load
  split
  · rfl
  · split <;> rfl

@[simp] theorem session_load (s : Store) : s.load.1.session = s.session := by
  rw [load_eq]

@[simp] theorem memory_load (s : Store) : s.load.1.memory = s.memory := by
  rw [load_eq]

/-- What is kept of the file need not be read. -/
theorem load_of_saved (h : s.saved = some fields) : s.load = (s, .ok fields) := by
  simp [load, h]

/-- What was loaded is kept, and nothing else changes. -/
theorem load_of_ok (h : s.load.2 = .ok fields) :
    s.load = ({ s with saved := some fields }, .ok fields) := by
  cases hsaved : s.saved with
  | some kept =>
    rw [load_of_saved hsaved] at h ⊢
    cases h
    rw [← hsaved]
  | none =>
    simp only [load, hsaved] at h ⊢
    cases hread : s.directory.read? with
    | some text =>
      simp only [hread] at h ⊢
      cases h
      rfl
    | none => simp [hread] at h

/-- A file that cannot be read leaves the store as it is. -/
theorem load_of_error {error : StorageError} (h : s.load.2 = .error error) :
    s.load = (s, .error error) := by
  cases hsaved : s.saved with
  | some kept => simp [load_of_saved hsaved] at h
  | none =>
    simp only [load, hsaved] at h ⊢
    cases hread : s.directory.read? with
    | some text => simp [hread] at h
    | none =>
      simp only [hread] at h ⊢
      rw [h]

/-- Loading fails only if there is a file that cannot be read. -/
theorem eq_unreadable_of_load {error : StorageError} (h : s.load.2 = .error error) :
    error = .unreadable := by
  unfold load at h
  split at h
  · cases h
  · split at h <;> cases h
    rfl

/-- Loading again gives the same. -/
theorem load_load (s : Store) : s.load.1.load.2 = s.load.2 := by
  cases hload : s.load.2 with
  | ok fields => rw [load_of_ok hload, load_of_saved rfl]
  | error error => rw [load_of_error hload, hload]

/-- Loading depends on the file and on what is kept of it. -/
theorem load_congr (hdirectory : t.directory = s.directory) (hsaved : t.saved = s.saved) :
    t.load.2 = s.load.2 := by
  unfold load
  rw [hsaved, hdirectory]
  cases s.saved <;> cases s.directory.read? <;> rfl

/-- Loading depends on the directory only if nothing is kept of the file, and then only on what
can be read. -/
theorem load_within (h : s.saved = none → e.read? = s.directory.read?) :
    (s.within e).load.2 = s.load.2 := by
  cases hsaved : s.saved with
  | some fields =>
    have hwithin : (s.within e).saved = some fields := hsaved
    rw [load_of_saved hsaved, load_of_saved hwithin]
  | none =>
    simp only [load, within, hsaved, h hsaved]
    cases s.directory.read? <;> rfl

/-! ## The storages -/

/-- Loading is all that looking into the storages does to a store. -/
theorem stored_fst (s : Store) (key : String) :
    (s.stored key).1 = s ∨ (s.stored key).1 = s.load.1 := by
  unfold stored
  split
  · exact .inl rfl
  · right
    split <;> simp [*]

@[simp] theorem memory_stored (s : Store) (key : String) :
    (s.stored key).1.memory = s.memory := by
  rcases stored_fst s key with h | h <;> rw [h]
  exact memory_load s

/-- A value is taken from the session, else from what is loaded. -/
theorem stored_snd (s : Store) (key : String) :
    (s.stored key).2 = match s.session.lookup (storageKey key) with
      | some value => .ok (some value)
      | none => s.load.2.map fun fields => fields.lookup (storageKey key) := by
  unfold stored
  cases s.session.lookup (storageKey key) with
  | some value => rfl
  | none =>
    cases hload : s.load.2 with
    | ok fields => rw [load_of_ok hload]; rfl
    | error error => rw [load_of_error hload]; rfl

/-- What a look into the storages finds depends on the session and the file. -/
theorem stored_congr (hsession : t.session.lookup (storageKey key) =
    s.session.lookup (storageKey key)) (hload : t.load.2 = s.load.2) :
    (t.stored key).2 = (s.stored key).2 := by
  rw [stored_snd, stored_snd, hsession, hload]

/-- A look into the storages leaves there what was there. -/
theorem stored_stored (s : Store) (key other : String) :
    ((s.stored key).1.stored other).2 = (s.stored other).2 := by
  rcases stored_fst s key with h | h <;> rw [h]
  exact stored_congr (by rw [session_load]) (load_load s)

theorem storageKey_inj : storageKey other = storageKey key ↔ other = key := by
  simp [storageKey]

/-! ## Level stores -/

/-- Two stores on a directory whose storages hold the same.  The directory is as it was at the
start as long as one of them has not read its file. -/
structure Level (d : StateDirectory) (s t : Store) : Prop where
  directory_eq : t.directory = s.directory
  session_eq : t.session = s.session
  load_eq : t.load.2 = s.load.2
  obstacle_eq : s.directory.obstacle = d.obstacle
  unread : s.saved = none ∨ t.saved = none → s.directory = d
  distinct_session : Fields.Distinct s.session
  distinct_loaded : ∀ fields, s.load.2 = .ok fields → Fields.Distinct fields

namespace Level

theorem symm (h : Level d s t) : Level d t s where
  directory_eq := h.directory_eq.symm
  session_eq := h.session_eq.symm
  load_eq := h.load_eq.symm
  obstacle_eq := h.directory_eq ▸ h.obstacle_eq
  unread hnone := h.directory_eq.trans (h.unread hnone.symm)
  distinct_session := h.session_eq ▸ h.distinct_session
  distinct_loaded fields hload := h.distinct_loaded fields (h.load_eq ▸ hload)

/-- Loading keeps stores level. -/
theorem load_left (h : Level d s t) : Level d s.load.1 t := by
  cases hload : s.load.2 with
  | error error => rwa [load_of_error hload]
  | ok fields =>
    rw [load_of_ok hload]
    refine ⟨h.directory_eq, h.session_eq, ?_, h.obstacle_eq, ?_, h.distinct_session, ?_⟩
    · rw [h.load_eq, hload, load_of_saved rfl]
    · rintro (hnone | hnone)
      · cases hnone
      · exact h.unread (.inr hnone)
    · intro loaded hloaded
      rw [load_of_saved rfl] at hloaded
      cases hloaded
      exact h.distinct_loaded fields hload

/-- So does looking into the storages. -/
theorem stored_left (h : Level d s t) (key : String) : Level d (s.stored key).1 t := by
  rcases stored_fst s key with heq | heq
  · rwa [heq]
  · rw [heq]
    exact h.load_left

theorem stored_right (h : Level d s t) (key : String) : Level d s (t.stored key).1 :=
  (h.symm.stored_left key).symm

/-- Both stores find the same in their storages. -/
theorem stored_eq (h : Level d s t) (key : String) : (t.stored key).2 = (s.stored key).2 :=
  stored_congr (congrArg _ h.session_eq) h.load_eq

/-- Memory has no part in it. -/
theorem of_congr (h : Level d s t) (hdirectory : u.directory = s.directory)
    (hsession : u.session = s.session) (hsaved : u.saved = s.saved) : Level d u t := by
  have hload : u.load.2 = s.load.2 := load_congr hdirectory hsaved
  refine ⟨hdirectory ▸ h.directory_eq, hsession ▸ h.session_eq, hload ▸ h.load_eq,
    hdirectory ▸ h.obstacle_eq, ?_, hsession ▸ h.distinct_session, hload ▸ h.distinct_loaded⟩
  rw [hsaved, hdirectory]
  exact h.unread

/-- Sessions that change alike keep stores level. -/
theorem of_session (h : Level d s t) {session session' : List (String × Json)}
    (hsession : session' = session) (hdistinct : Fields.Distinct session) :
    Level d { s with session } { t with session := session' } where
  directory_eq := h.directory_eq
  session_eq := hsession
  load_eq := by
    rw [load_congr (t := { t with session := session' }) (s := t) rfl rfl,
      load_congr (t := { s with session }) (s := s) rfl rfl, h.load_eq]
  obstacle_eq := h.obstacle_eq
  unread := h.unread
  distinct_session := hdistinct
  distinct_loaded fields hload := h.distinct_loaded fields (by
    rwa [load_congr (t := { s with session }) (s := s) rfl rfl] at hload)

/-- Loading gives the same in another condition of the directory that says the same about what
can be read. -/
theorem load_within_left (h : Level d s t) {d' e : StateDirectory} (hread : d'.read? = d.read?)
    (hunread : s.saved = none ∨ t.saved = none → e = d') : (s.within e).load.2 = s.load.2 :=
  load_within fun hnone => by rw [hunread (.inl hnone), h.unread (.inl hnone), hread]

/-- Stores stay level in such a condition of their directory. -/
theorem within (h : Level d s t) {d' e : StateDirectory} (hread : d'.read? = d.read?)
    (hobstacle : e.obstacle = d'.obstacle) (hunread : s.saved = none ∨ t.saved = none → e = d') :
    Level d' (s.within e) (t.within e) := by
  have hleft := h.load_within_left hread hunread
  have hright := h.symm.load_within_left hread fun hnone => hunread hnone.symm
  refine ⟨rfl, h.session_eq, ?_, hobstacle, hunread, h.distinct_session, ?_⟩
  · rw [hleft, hright, h.load_eq]
  · rw [hleft]
    exact h.distinct_loaded

end Level

/-! ## Writing -/

@[simp] theorem memory_save (s : Store) (fields : List (String × Json)) :
    (s.save fields).1.memory = s.memory := by
  unfold save
  split <;> rfl

@[simp] theorem session_save (s : Store) (fields : List (String × Json)) :
    (s.save fields).1.session = s.session := by
  unfold save
  split <;> rfl

/-- What is written is loaded, or what was kept before if writing fails. -/
theorem load_save {old : List (String × Json)} (h : s.saved = some old)
    (fields : List (String × Json)) :
    (s.save fields).1.saved = some (if (s.save fields).2.isOk then fields else old) := by
  unfold save
  split
  · rfl
  · exact h

/-- Level stores that have read the file write it alike. -/
theorem Level.save {old old' : List (String × Json)} (h : Level d s t) (hs : s.saved = some old)
    (ht : t.saved = some old') (hfields : Fields.Distinct fields) :
    (t.save fields).2 = (s.save fields).2 ∧ Level d (s.save fields).1 (t.save fields).1 := by
  have hsame : old' = old := by
    have hload := h.load_eq
    rw [load_of_saved hs, load_of_saved ht] at hload
    exact Except.ok.inj hload
  have hresult : (t.save fields).2 = (s.save fields).2 := by
    simp only [Store.save, h.directory_eq]
    split <;> rfl
  have hdirectory : (t.save fields).1.directory = (s.save fields).1.directory := by
    simp only [Store.save, h.directory_eq]
    split <;> rfl
  have hobstacle : (s.save fields).1.directory.obstacle = s.directory.obstacle := by
    have hwrite := StateDirectory.obstacle_write s.directory (Json.object fields).pretty
    unfold Store.save
    split <;> rename_i hw <;> rwa [hw] at hwrite
  have hleft := load_save hs fields
  have hright := load_save ht fields
  refine ⟨hresult, hdirectory, ?_, ?_, hobstacle.trans h.obstacle_eq, ?_, ?_, ?_⟩
  · rw [session_save, session_save, h.session_eq]
  · rw [load_of_saved hleft, load_of_saved hright, hresult, hsame]
  · rw [hleft, hright]
    rintro (hnone | hnone) <;> cases hnone
  · rw [session_save]
    exact h.distinct_session
  · intro loaded hloaded
    rw [load_of_saved hleft] at hloaded
    cases hloaded
    split
    · exact hfields
    · exact h.distinct_loaded old (congrArg Prod.snd (load_of_saved hs))

/-- `Touches key op`: an operation on the storages changes at most what they hold under one key,
and nothing when it fails.  It leaves memory alone, and level stores level. -/
structure Touches (key : String) (op : Store → Store × Except StorageError Unit) : Prop where
  level : ∀ {d s t}, Level d s t → (op t).2 = (op s).2 ∧ Level d (op s).1 (op t).1
  memory : ∀ s, (op s).1.memory = s.memory
  stored : ∀ {d s t}, Level d s t → ∀ other, ((op s).2.isOk → other ≠ key) →
    ((op s).1.stored other).2 = (s.stored other).2

/-- An operation that writes what is loaded with a change of one key, if there is something to
change, touches that key. -/
theorem touches_save {op : Store → Store × Except StorageError Unit}
    (change : List (String × Json) → Option (List (String × Json)))
    (herror : ∀ s error, s.load.2 = .error error → op s = (s, .error error))
    (hok : ∀ s fields, s.load.2 = .ok fields → op s =
      ((change fields).map s.load.1.save).getD (s.load.1, .ok ()))
    (hchange : ∀ fields new, Fields.Distinct fields → change fields = some new →
      Fields.Distinct new ∧
        ∀ name, name ≠ storageKey key → new.lookup name = fields.lookup name) :
    Touches key op where
  level {d s t} h := by
    cases hload : s.load.2 with
    | error error =>
      have hload' := h.load_eq.trans hload
      rw [herror s error hload, herror t error hload']
      exact ⟨rfl, h⟩
    | ok fields =>
      have hload' := h.load_eq.trans hload
      have hboth : Level d s.load.1 t.load.1 := h.load_left.symm.load_left.symm
      rw [hok s fields hload, hok t fields hload']
      cases hnew : change fields with
      | none => exact ⟨rfl, hboth⟩
      | some new =>
        have hleft : s.load.1.saved = some fields := by rw [load_of_ok hload]
        have hright : t.load.1.saved = some fields := by rw [load_of_ok hload']
        exact hboth.save hleft hright (hchange fields new (h.distinct_loaded fields hload) hnew).1
  memory s := by
    cases hload : s.load.2 with
    | error error => rw [herror s error hload]
    | ok fields =>
      rw [hok s fields hload, load_of_ok hload]
      cases change fields with
      | none => rfl
      | some new => exact memory_save _ new
  stored {d s t} h other hother := by
    cases hload : s.load.2 with
    | error error => rw [herror s error hload]
    | ok fields =>
      have hsaved : s.load.1.saved = some fields := by rw [load_of_ok hload]
      have hsession : s.load.1.session = s.session := by rw [load_of_ok hload]
      rw [hok s fields hload] at hother ⊢
      cases hnew : change fields with
      | none => exact stored_congr (congrArg _ hsession) (load_load s)
      | some new =>
        simp only [hnew, Option.map_some, Option.getD_some] at hother ⊢
        rw [stored_snd, stored_snd, session_save, hsession, hload,
          load_of_saved (load_save hsaved new)]
        cases hsucceeded : (s.load.1.save new).2.isOk with
        | false => rfl
        | true =>
          have hne : storageKey other ≠ storageKey key := fun heq =>
            hother hsucceeded (storageKey_inj.1 heq)
          have hsame := (hchange fields new (h.distinct_loaded fields hload) hnew).2 _ hne
          simp only [Except.map, if_true, hsame]

/-- Putting a value into a storage touches its key. -/
theorem touches_putStored (key : String) (value : Json) (storage : Option StorageKind) :
    Touches key (putStored · key value storage) := by
  cases storage with
  | none => exact ⟨fun h => ⟨rfl, h⟩, fun s => rfl, fun _ _ _ => rfl⟩
  | some kind =>
    cases kind with
    | «local» =>
      refine touches_save (fun fields => some (Fields.set fields (storageKey key) value))
        ?_ ?_ ?_
      · intro s error hload
        simp only [putStored, load_of_error hload]
      · intro s fields hload
        simp only [putStored, load_of_ok hload]
        rfl
      · rintro fields _ hdistinct ⟨⟩
        exact ⟨hdistinct.set _ _, fun name hname =>
          (Fields.lookup_set _ _ _ _).trans (if_neg hname)⟩
    | session =>
      refine ⟨fun {d s t} h => ⟨rfl, ?_⟩, fun s => rfl, fun {d s t} h other hother => ?_⟩
      · have hsession := congrArg (Fields.set · (storageKey key) value) h.session_eq
        exact h.of_session hsession (h.distinct_session.set _ _)
      · have hne : storageKey other ≠ storageKey key := fun heq =>
          hother rfl (storageKey_inj.1 heq)
        exact stored_congr ((Fields.lookup_set _ _ _ _).trans (if_neg hne)) (load_congr rfl rfl)

/-- Erasing a key touches it. -/
theorem touches_erase (key : String) : Touches key (erase · key) := by
  refine touches_save (fun fields =>
    if (fields.lookup (storageKey key)).isSome then
      some (Fields.swapRemove fields (storageKey key)) else none) ?_ ?_ ?_
  · intro s error hload
    simp only [erase, load_of_error hload]
  · intro s fields hload
    simp only [erase, load_of_ok hload]
    split <;> rfl
  · intro fields new hdistinct hnew
    split at hnew
    · cases hnew
      exact ⟨hdistinct.swapRemove _, fun name hname =>
        (Fields.lookup_swapRemove hdistinct _ _).trans (if_neg hname)⟩
    · cases hnew

end Store

end ViewSchema
