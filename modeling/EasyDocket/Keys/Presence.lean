import EasyDocket.Keys.Lifecycle

/-!
# Who opens a vault

The vault service with the device check in front of the stored key, the page that switches the check, and the keystore
of the platform.  `NativeSecureStore` answers null for a key it cannot read, and takes a removal that failed for done, so
that a locked vault may have its key in the keystore still.

What passphrases have given, and what has let the app open, is written down beside the installation (`Watched`).
-/

namespace EasyDocket

namespace Presence

open VaultService Failing

/-- What is called on one device. -/
inductive Act
  | command (c : VaultCommand)
  /-- `initialise`, with a keystore that cannot be read. -/
  | initialiseUnread (f : Faults) (random : Bytes)
  /-- `lock`, with a keystore that removes nothing. -/
  | lockUnremoved
  /-- `destroy`, with a keystore that removes nothing. -/
  | destroyUnremoved (f : Faults)
  /-- The switch of the security page. -/
  | setBiometricLock (fails passes enabled : Bool)

/-- An operation over a keystore that answers null. -/
def unread (x : VaultM Unit) : VaultM Unit := fun s =>
  let result := x { s with secureStore := { s.secureStore with masterKey := none } }
  (result.1, { result.2 with secureStore := s.secureStore })

/-- An operation over a keystore that keeps what it has. -/
def unremoved (x : VaultM Unit) : VaultM Unit := fun s =>
  let result := x s
  (result.1, { result.2 with secureStore := s.secureStore })

/-- `BiometricService.verify`: never on the web, which has no durable store either. -/
def verify (passes : Bool) : VaultM Bool := do
  let s ← current
  pure (s.secureStore.durable && passes)

/-- `setBiometricLock` of the security page, which `vaultGuard` keeps behind an unlocked vault. -/
def setBiometricLock (fails passes enabled : Bool) : VaultM Unit := do
  let s ← current
  if s.vault.state = .unlocked then
    let passed ← verify passes
    if enabled && !passed then pure () else BiometricService.setEnabled fails enabled
  else pure ()

variable (nfkc : JsString → JsString)

namespace Act

def exec : Act → VaultM Unit
  | command c => c.exec nfkc
  | initialiseUnread f random => unread (VaultService.initialise f random false)
  | lockUnremoved => unremoved (VaultService.lock false)
  | destroyUnremoved f => unremoved (VaultService.destroy (fun n => n != 0 && f n))
  | setBiometricLock fails passes enabled => Presence.setBiometricLock fails passes enabled

/-- The key that an act takes up under a passphrase. -/
def gives : Act → Installation → Option CryptoKey
  | command (.create f passphrase random), _ =>
    if (nfkc passphrase).length < 8 ∨ (f 0 || f 1) = true then none else some random.key
  | command (.restore f _ wrapped passphrase), _ =>
    if f 0 || f 1 then none else (unwrapMasterKey nfkc wrapped passphrase).toOption
  | command (.unlock f passphrase), s =>
    if f 0 then none else s.preferences.wrapped.bind (fun w => (unwrapMasterKey nfkc w passphrase).toOption)
  | _, _ => none

/-- The device check, if it is made, is passed. -/
def checks : Act → Bool
  | command (.initialise _ _ present) => present
  | _ => false

/-- The key is removed from memory and from the keystore. -/
def removes : Act → Bool
  | command (.lock fails) => !fails
  | command (.destroy f) => !f 0
  | _ => false

/-- The app is opened. -/
def restarts : Act → Bool
  | command .restart => true
  | _ => false

end Act

/-- An installation, and what has been done with it. -/
structure Watched where
  inst : Installation
  /-- The keys that were taken up under a passphrase. -/
  given : Set CryptoKey
  /-- A key was taken up under a passphrase since the app was opened. -/
  entered : Bool
  /-- A device check was passed since the app was opened. -/
  checked : Bool
  /-- The app was opened with the check switched off. -/
  trusted : Bool
  /-- The key was removed since the last one was taken up under a passphrase. -/
  removed : Bool

namespace Watched

/-- A new installation. -/
def new (durable : Bool) : Watched := ⟨(Tracked.new durable).inst, ∅, false, false, true, false⟩

def exec (t : Watched) (a : Act) : Watched where
  inst := (a.exec nfkc t.inst).2
  given := {k | k ∈ t.given ∨ a.gives nfkc t.inst = some k}
  entered := (a.gives nfkc t.inst).isSome || (t.entered && !a.restarts)
  checked := a.checks || (t.checked && !a.restarts)
  trusted := if a.restarts then !t.inst.preferences.biometricLock else t.trusted
  removed := a.removes || (t.removed && (a.gives nfkc t.inst).isNone)

/-- The vault was opened under a passphrase, or on the installed app by a check that was passed or was off. -/
def Admitted (t : Watched) : Prop :=
  t.entered = true ∨ t.inst.secureStore.durable = true ∧ (t.checked = true ∨ t.trusted = true)

/-- What holds of an installation at all times. -/
structure Rules (t : Watched) : Prop where
  /-- A key in memory came from a passphrase, and is there because someone was admitted. -/
  held : ∀ k, t.inst.vault.masterKey = some k → k ∈ t.given ∧ t.Admitted
  /-- Nobody else sees the pages of an unlocked vault. -/
  shown : t.inst.vault.state = .unlocked → t.Admitted
  /-- A key in the store came from a passphrase, and the store is the platform's. -/
  stashed : ∀ raw, t.inst.secureStore.masterKey = some raw →
    t.inst.secureStore.durable = true ∧ ∃ k ∈ t.given, k.raw = raw
  /-- Nobody else switches the check off. -/
  switched : t.inst.preferences.biometricLock = false → t.entered = true ∨ t.checked = true ∨ t.trusted = true
  /-- A vault whose key was removed has none until the next passphrase. -/
  gone : t.removed = true → t.inst.vault.masterKey = none ∧ t.inst.secureStore.masterKey = none

end Watched

/-! ## What an act does -/

/-- No key is taken up. -/
structure Quiet (s s' : Installation) : Prop where
  key : s'.vault.masterKey = none ∨ s'.vault.masterKey = s.vault.masterKey
  state : s'.vault.state = .unlocked → s.vault.state = .unlocked
  stash : s'.secureStore.masterKey = none ∨ s'.secureStore.masterKey = s.secureStore.masterKey
  durable : s'.secureStore.durable = s.secureStore.durable
  lock : s'.preferences.biometricLock = s.preferences.biometricLock ∨ s.vault.state = .unlocked

/-- A key is taken up under a passphrase. -/
structure Gave (k : CryptoKey) (s s' : Installation) : Prop where
  key : s'.vault.masterKey = some k
  stash : s'.secureStore.masterKey = s.secureStore.masterKey ∨
    s.secureStore.durable = true ∧ s'.secureStore.masterKey = some k.raw
  durable : s'.secureStore.durable = s.secureStore.durable

/-- The key in the store is taken up. -/
structure Took (present : Bool) (s s' : Installation) : Prop where
  key : ∃ k, s'.vault.masterKey = some k ∧ s.secureStore.masterKey = some k.raw
  store : s'.secureStore = s.secureStore
  lock : s'.preferences.biometricLock = s.preferences.biometricLock
  passed : s.preferences.biometricLock = false ∨ present = true

section Shapes

variable {s s' s'' : Installation} {f : Faults}

theorem Quiet.refl (s : Installation) : Quiet s s := ⟨Or.inr rfl, id, Or.inr rfl, rfl, Or.inl rfl⟩

/-- A stored key is taken up where the check, if it is on, is passed. -/
theorem takeStashed_run {b : Byte} {raw : Bytes} (present : Bool) (h4 : f 4 = false) (h5 : f 5 = false)
    (hraw : s.secureStore.masterKey = some (b :: raw)) : takeStashed f present s =
    if s.preferences.biometricLock && !present then (.ok (), { s with vault := { s.vault with state := .locked } })
    else match importMasterKey (b :: raw) with
      | none => (.error .keyLength, s)
      | some key => (.ok (), { s with vault := { s.vault with masterKey := some key, state := .unlocked } }) := by
  obtain ⟨⟨id, dev, wrapped, bio⟩, ⟨durable, stored⟩, v⟩ := s
  cases hraw
  unfold takeStashed
  rw [h4, h5]
  cases bio <;> cases present
  case true.false => rfl
  all_goals
    cases hk : importMasterKey (b :: raw) <;> simp [Failing.bind_apply, guardFault, hk, setMasterKey, setState]

theorem takeStashed_none (present : Bool) (h4 : f 4 = false)
    (hraw : s.secureStore.masterKey = none ∨ s.secureStore.masterKey = some []) :
    takeStashed f present s = (.ok (), { s with vault := { s.vault with state := .locked } }) := by
  obtain ⟨p, ⟨durable, stored⟩, v⟩ := s
  unfold takeStashed
  rw [h4]
  rcases hraw with hraw | hraw <;> cases hraw <;> rfl

theorem takeStashed_shape (present : Bool) :
    Quiet s (takeStashed f present s).2 ∨ Took present s (takeStashed f present s).2 := by
  have hlocked : Quiet s { s with vault := { s.vault with state := .locked } } :=
    ⟨Or.inr rfl, fun h => VaultState.noConfusion h, Or.inr rfl, rfl, Or.inl rfl⟩
  cases h4 : f 4 with
  | true =>
    have hrun : takeStashed f present s = (.error .storage, s) := by
      unfold takeStashed
      rw [h4]
      rfl
    rw [hrun]
    exact Or.inl (Quiet.refl s)
  | false =>
    cases hraw : s.secureStore.masterKey with
    | none =>
      rw [takeStashed_none present h4 (Or.inl hraw)]
      exact Or.inl hlocked
    | some raw =>
      cases raw with
      | nil =>
        rw [takeStashed_none present h4 (Or.inr hraw)]
        exact Or.inl hlocked
      | cons b raw =>
        cases h5 : f 5 with
        | true =>
          have hrun : takeStashed f present s = (.error .storage, s) := by
            unfold takeStashed
            simp only [h4, h5, hraw, guardFault_false, Failing.bind_apply, Failing.current_apply]
            rfl
          rw [hrun]
          exact Or.inl (Quiet.refl s)
        | false =>
          rw [takeStashed_run present h4 h5 hraw]
          split_ifs with hpass
          · exact Or.inl hlocked
          · have hpassed : s.preferences.biometricLock = false ∨ present = true := by
              cases hbio : s.preferences.biometricLock
              · exact Or.inl rfl
              · exact Or.inr (by simpa [hbio] using hpass)
            cases hk : importMasterKey (b :: raw) with
            | none => exact Or.inl (Quiet.refl s)
            | some key =>
              exact Or.inr ⟨⟨key, rfl, hraw.trans (congrArg some (importMasterKey_eq_some.mp hk))⟩, rfl, rfl, hpassed⟩

theorem initialise_shape (random : Bytes) (present : Bool) : Quiet s (VaultService.initialise f random present s).2 ∨
    Took present s (VaultService.initialise f random present s).2 := by
  rw [initialise_run]
  split_ifs
  · exact Or.inl (Quiet.refl s)
  · exact Or.inl ⟨Or.inr rfl, id, Or.inr rfl, rfl, Or.inl rfl⟩
  · rcases takeStashed_shape (f := f) (s := s.identified random) present with h | h
    · exact Or.inl ⟨h.key, h.state, h.stash, h.durable, h.lock⟩
    · exact Or.inr ⟨h.key, h.store, h.lock, h.passed⟩
  · exact Or.inl ⟨Or.inr rfl, fun h => VaultState.noConfusion h, Or.inr rfl, rfl, Or.inl rfl⟩

theorem unread_shape (random : Bytes) : Quiet s (unread (VaultService.initialise f random false) s).2 := by
  rcases initialise_shape (f := f) (s := { s with secureStore := { s.secureStore with masterKey := none } }) random false
    with h | h
  · exact ⟨h.key, h.state, Or.inr rfl, rfl, h.lock⟩
  · obtain ⟨k, -, hk⟩ := h.key
    cases hk

theorem adopt_shape (b : Bool) (k : CryptoKey) : Gave k s (adopt b k s).2 := by
  rw [adopt_run]
  split_ifs with hb
  · exact ⟨rfl, Or.inl rfl, rfl⟩
  · by_cases hd : s.secureStore.durable = true
    · refine ⟨rfl, Or.inr ⟨hd, ?_⟩, ?_⟩ <;> simp [Installation.opened, hd]
    · refine ⟨rfl, Or.inl ?_, ?_⟩ <;> simp [Installation.opened, hd]

theorem takeUp_shape (id : JsString) (w : WrappedMasterKey) (k : CryptoKey) (s : Installation) :
    ((f 0 || f 1) = true ∧ Quiet s ((do
      writeBoth (f 0) (f 1) (some id) (some w)
      setVaultId (some id)
      adopt (f 2) k : VaultM Unit) s).2) ∨
    (f 0 || f 1) = false ∧ Gave k s ((do
      writeBoth (f 0) (f 1) (some id) (some w)
      setVaultId (some id)
      adopt (f 2) k : VaultM Unit) s).2 := by
  rw [takeUp_run]
  cases h : f 0 || f 1 with
  | true => exact Or.inl ⟨rfl, Or.inr rfl, fun h => h, Or.inr rfl, rfl, Or.inl rfl⟩
  | false =>
    have hgave := adopt_shape (s := (s.written false false (some id) (some w)).named (some id)) (f 2) k
    exact Or.inr ⟨rfl, hgave.key, hgave.stash, hgave.durable⟩

theorem lock_shape (fails : Bool) : Quiet s (VaultService.lock fails s).2 := by
  rw [lock_run]
  cases fails
  · exact ⟨Or.inl rfl, fun h => absurd h (closedState_ne_unlocked _), Or.inl rfl, rfl, Or.inl rfl⟩
  · exact ⟨Or.inl rfl, fun h => h, Or.inr rfl, rfl, Or.inl rfl⟩

theorem destroy_shape : Quiet s (VaultService.destroy f s).2 := by
  rw [destroy_run]
  split_ifs
  · exact ⟨Or.inl rfl, fun h => h, Or.inr rfl, rfl, Or.inl rfl⟩
  · exact ⟨Or.inl rfl, fun h => absurd h (closedState_ne_unlocked _), Or.inl rfl, rfl, Or.inl rfl⟩
  · exact ⟨Or.inl rfl, fun h => VaultState.noConfusion h, Or.inl rfl, rfl, Or.inl rfl⟩

/-- A keystore that keeps its key instead of removing it. -/
theorem Quiet.kept (h : Quiet s s') : Quiet s { s' with secureStore := s.secureStore } :=
  ⟨h.key, h.state, Or.inr rfl, rfl, h.lock⟩

theorem changePassphrase_shape {nfkc : JsString → JsString} (p q : JsString) (salt iv : Bytes) :
    Quiet s (VaultService.changePassphrase nfkc f p q salt iv s).2 := by
  rw [changePassphrase_run]
  have hwrote : ∀ w, Quiet s { s with preferences := { s.preferences with wrapped := w } } :=
    fun w => ⟨Or.inr rfl, id, Or.inr rfl, rfl, Or.inl rfl⟩
  cases hw : s.preferences.wrapped with
  | none => split_ifs <;> exact Quiet.refl s
  | some w =>
    cases hu : unwrapMasterKey nfkc w p with
    | error e =>
      simp only [hu]
      split_ifs <;> exact Quiet.refl s
    | ok key =>
      simp only [hu]
      split_ifs
      · exact Quiet.refl s
      · exact Quiet.refl s
      · exact Quiet.refl s
      · exact hwrote _

theorem setBiometricLock_shape (fails passes enabled : Bool) :
    Quiet s (Presence.setBiometricLock fails passes enabled s).2 := by
  unfold Presence.setBiometricLock
  rw [Failing.current_bind_apply]
  split_ifs with hs
  · unfold verify
    rw [Failing.bind_apply, Failing.current_bind_apply, Failing.pure_apply]
    dsimp only
    split_ifs
    · exact Quiet.refl s
    · cases fails
      · exact ⟨Or.inr rfl, id, Or.inr rfl, rfl, Or.inr hs⟩
      · exact Quiet.refl s
  · exact Quiet.refl s

end Shapes

section Run

variable {nfkc : JsString → JsString}

variable (nfkc) in
theorem exec_shape (a : Act) (s : Installation) :
    (∃ k, a.gives nfkc s = some k ∧ Gave k s (a.exec nfkc s).2) ∨ a.gives nfkc s = none ∧
      (Quiet s (a.exec nfkc s).2 ∨ a.restarts = false ∧ Took a.checks s (a.exec nfkc s).2) := by
  cases a with
  | command c =>
    cases c with
    | restart => exact Or.inr ⟨rfl, Or.inl ⟨Or.inl rfl, fun h => VaultState.noConfusion h, Or.inr rfl, rfl, Or.inl rfl⟩⟩
    | initialise f random present => exact Or.inr ⟨rfl, (initialise_shape random present).imp_right (fun h => ⟨rfl, h⟩)⟩
    | create f p r =>
      have hrun : (Act.exec nfkc (.command (.create f p r)) s) = _ := create_run (f := f) (s := s) p r
      rw [hrun]
      by_cases hp : (nfkc p).length < 8
      · rw [if_pos hp]
        exact Or.inr ⟨if_pos (Or.inl hp), Or.inl (Quiet.refl s)⟩
      · rw [if_neg hp]
        rcases takeUp_shape r.uuid (wrapMasterKey nfkc r.key p r.salt r.iv) r.key s with ⟨hf, h⟩ | ⟨hf, h⟩
        · exact Or.inr ⟨if_pos (Or.inr hf), Or.inl h⟩
        · exact Or.inl ⟨r.key, if_neg (by rw [hf]; simp [hp]), h⟩
    | restore f id w p =>
      have hrun : (Act.exec nfkc (.command (.restore f id w p)) s) = _ := restore_run (f := f) (s := s) id w p
      rw [hrun]
      cases hu : unwrapMasterKey nfkc w p with
      | error e =>
        refine Or.inr ⟨?_, Or.inl (Quiet.refl s)⟩
        simp [Act.gives, hu, Except.toOption]
      | ok key =>
        rcases takeUp_shape id w key s with ⟨hf, h⟩ | ⟨hf, h⟩
        · exact Or.inr ⟨if_pos hf, Or.inl h⟩
        · refine Or.inl ⟨key, ?_, h⟩
          simp [Act.gives, hf, hu, Except.toOption]
    | unlock f p =>
      have hrun : (Act.exec nfkc (.command (.unlock f p)) s) = _ := unlock_run (f := f) (s := s) p
      rw [hrun]
      cases h0 : f 0 with
      | true => exact Or.inr ⟨if_pos h0, Or.inl (Quiet.refl s)⟩
      | false =>
        cases hw : s.preferences.wrapped with
        | none =>
          refine Or.inr ⟨?_, Or.inl (Quiet.refl s)⟩
          simp [Act.gives, hw]
        | some w =>
          cases hu : unwrapMasterKey nfkc w p with
          | error e =>
            simp only [hu]
            refine Or.inr ⟨?_, Or.inl (Quiet.refl s)⟩
            simp [Act.gives, hw, hu, Except.toOption]
          | ok key =>
            simp only [hu]
            refine Or.inl ⟨key, ?_, adopt_shape (f 1) key⟩
            simp [Act.gives, h0, hw, hu, Except.toOption]
    | lock fails => exact Or.inr ⟨rfl, Or.inl (lock_shape fails)⟩
    | changePassphrase f p q salt iv => exact Or.inr ⟨rfl, Or.inl (changePassphrase_shape p q salt iv)⟩
    | destroy f => exact Or.inr ⟨rfl, Or.inl destroy_shape⟩
  | initialiseUnread f random => exact Or.inr ⟨rfl, Or.inl (unread_shape random)⟩
  | lockUnremoved => exact Or.inr ⟨rfl, Or.inl (lock_shape false).kept⟩
  | destroyUnremoved f => exact Or.inr ⟨rfl, Or.inl destroy_shape.kept⟩
  | setBiometricLock fails passes enabled => exact Or.inr ⟨rfl, Or.inl (setBiometricLock_shape fails passes enabled)⟩

theorem exec_removes {a : Act} (h : a.removes = true) (s : Installation) :
    a.gives nfkc s = none ∧ (a.exec nfkc s).2.vault.masterKey = none ∧ (a.exec nfkc s).2.secureStore.masterKey = none := by
  unfold Act.removes at h
  split at h
  · rename_i fails
    have hrun : (Act.exec nfkc (.command (.lock fails)) s) = _ := lock_run (s := s) fails
    cases fails
    · exact ⟨rfl, rfl, rfl⟩
    · cases h
  · rename_i f
    have hrun : (Act.exec nfkc (.command (.destroy f)) s) = _ := destroy_run (f := f) (s := s)
    rw [hrun]
    cases h0 : f 0 with
    | true => simp [h0] at h
    | false => cases f 1 || f 2 <;> exact ⟨rfl, rfl, rfl⟩
  · cases h

namespace Watched

variable {t : Watched}

theorem rules_new (durable : Bool) : (new durable).Rules := by
  refine ⟨fun k h => ?_, fun h => ?_, fun raw h => ?_, fun _ => Or.inr (Or.inr rfl), fun h => ?_⟩
  all_goals cases h

/-- Opening the app forgets the key in memory and who was admitted. -/
theorem Rules.restarted (h : t.Rules) {a : Act} (ha : a.restarts = true) : (t.exec nfkc a).Rules := by
  cases a with
  | command c =>
    cases c with
    | restart =>
      refine ⟨fun k hk => ?_, fun hs => ?_, fun raw hraw => ?_, fun hoff => ?_, fun hgone => ?_⟩
      · cases hk
      · cases hs
      · obtain ⟨hd, k, hk, heq⟩ := h.stashed raw hraw
        exact ⟨hd, k, Or.inl hk, heq⟩
      · exact Or.inr (Or.inr (by
          show (!t.inst.preferences.biometricLock) = true
          rw [show t.inst.preferences.biometricLock = false from hoff]
          rfl))
      · have hremoved : t.removed = true := by
          have hboth : (false || t.removed && true) = true := hgone
          simpa using hboth
        exact ⟨rfl, (h.gone hremoved).2⟩
    | _ => cases ha
  | _ => cases ha

section Step

variable {a : Act}

theorem entered_exec (ha : a.restarts = false) : (t.exec nfkc a).entered = ((a.gives nfkc t.inst).isSome || t.entered) := by
  show ((a.gives nfkc t.inst).isSome || t.entered && !a.restarts) = _
  rw [ha, Bool.not_false, Bool.and_true]

theorem checked_exec (ha : a.restarts = false) : (t.exec nfkc a).checked = (a.checks || t.checked) := by
  show (a.checks || t.checked && !a.restarts) = _
  rw [ha, Bool.not_false, Bool.and_true]

theorem trusted_exec (ha : a.restarts = false) : (t.exec nfkc a).trusted = t.trusted := by
  show (if a.restarts = true then _ else _) = _
  rw [ha, if_neg Bool.false_ne_true]

theorem Admitted.exec (h : t.Admitted) (ha : a.restarts = false)
    (hd : (t.exec nfkc a).inst.secureStore.durable = t.inst.secureStore.durable) : (t.exec nfkc a).Admitted := by
  rcases h with h | ⟨hdur, h | h⟩
  · exact Or.inl (by rw [entered_exec ha, h, Bool.or_true])
  · exact Or.inr ⟨hd.trans hdur, Or.inl (by rw [checked_exec ha, h, Bool.or_true])⟩
  · exact Or.inr ⟨hd.trans hdur, Or.inr ((trusted_exec ha).trans h)⟩

theorem or_exec (h : t.entered = true ∨ t.checked = true ∨ t.trusted = true) (ha : a.restarts = false) :
    (t.exec nfkc a).entered = true ∨ (t.exec nfkc a).checked = true ∨ (t.exec nfkc a).trusted = true := by
  rw [entered_exec ha, checked_exec ha, trusted_exec ha]
  rcases h with h | h | h <;> simp [h]

/-- What is removed stays so where no passphrase gives a key. -/
theorem removed_of_exec (h : (t.exec nfkc a).removed = true) :
    a.removes = true ∨ t.removed = true ∧ a.gives nfkc t.inst = none := by
  have hboth : (a.removes || t.removed && (a.gives nfkc t.inst).isNone) = true := h
  rcases Bool.or_eq_true_iff.mp hboth with h | h
  · exact Or.inl h
  · obtain ⟨hr, hn⟩ := Bool.and_eq_true_iff.mp h
    exact Or.inr ⟨hr, Option.isNone_iff_eq_none.mp hn⟩

theorem Rules.gave (h : t.Rules) (ha : a.restarts = false) {k : CryptoKey} (hgive : a.gives nfkc t.inst = some k)
    (hgave : Gave k t.inst (t.exec nfkc a).inst) : (t.exec nfkc a).Rules := by
  have hentered : (t.exec nfkc a).entered = true := by
    rw [entered_exec ha, hgive]
    rfl
  refine ⟨fun k' hk' => ?_, fun _ => Or.inl hentered, fun raw hraw => ?_, fun _ => Or.inl hentered, fun hgone => ?_⟩
  · rw [hgave.key] at hk'
    cases hk'
    exact ⟨Or.inr hgive, Or.inl hentered⟩
  · rcases hgave.stash with hsame | ⟨hd, hnew⟩
    · obtain ⟨hd, k', hk', heq⟩ := h.stashed raw (hsame ▸ hraw)
      exact ⟨hgave.durable.trans hd, k', Or.inl hk', heq⟩
    · rw [hnew] at hraw
      exact ⟨hgave.durable.trans hd, k, Or.inr hgive, Option.some.inj hraw⟩
  · rcases removed_of_exec hgone with hr | ⟨-, hn⟩
    · exact absurd (hgive.symm.trans (exec_removes hr t.inst).1) nofun
    · exact absurd (hgive.symm.trans hn) nofun

theorem Rules.quiet (h : t.Rules) (ha : a.restarts = false) (hquiet : Quiet t.inst (t.exec nfkc a).inst) :
    (t.exec nfkc a).Rules := by
  refine ⟨fun k hk => ?_, fun hs => (h.shown (hquiet.state hs)).exec ha hquiet.durable, fun raw hraw => ?_, fun hoff => ?_,
    fun hgone => ?_⟩
  · rcases hquiet.key with hnone | hsame
    · exact absurd (hk.symm.trans hnone) nofun
    · obtain ⟨hk', hadm⟩ := h.held k (hsame ▸ hk)
      exact ⟨Or.inl hk', hadm.exec ha hquiet.durable⟩
  · rcases hquiet.stash with hnone | hsame
    · exact absurd (hraw.symm.trans hnone) nofun
    · obtain ⟨hd, k, hk, heq⟩ := h.stashed raw (hsame ▸ hraw)
      exact ⟨hquiet.durable.trans hd, k, Or.inl hk, heq⟩
  · rcases hquiet.lock with hsame | hopen
    · exact or_exec (h.switched (hsame ▸ hoff)) ha
    · refine or_exec ?_ ha
      rcases h.shown hopen with he | ⟨-, he⟩
      · exact Or.inl he
      · exact Or.inr he
  · rcases removed_of_exec hgone with hr | ⟨hr, -⟩
    · exact (exec_removes hr t.inst).2
    · obtain ⟨hkey, hstash⟩ := h.gone hr
      exact ⟨hquiet.key.elim id (fun hsame => hsame.trans hkey), hquiet.stash.elim id (fun hsame => hsame.trans hstash)⟩

/-- A key that is taken up from the store was put there under a passphrase, and the check that let it through was passed, or
was off already when the app was opened. -/
theorem Rules.took (h : t.Rules) (ha : a.restarts = false) (htook : Took a.checks t.inst (t.exec nfkc a).inst) :
    (t.exec nfkc a).Rules := by
  obtain ⟨k, hk, hraw⟩ := htook.key
  obtain ⟨hd, k₀, hk₀, heq⟩ := h.stashed _ hraw
  have hkey : k₀ = k := by
    cases k₀
    cases k
    cases heq
    rfl
  have hdurable : (t.exec nfkc a).inst.secureStore.durable = t.inst.secureStore.durable :=
    congrArg SecureStore.durable htook.store
  have hadm : (t.exec nfkc a).Admitted := by
    rcases htook.passed with hoff | hcheck
    · have hor : (t.exec nfkc a).entered = true ∨ (t.exec nfkc a).checked = true ∨ (t.exec nfkc a).trusted = true :=
        or_exec (h.switched hoff) ha
      exact hor.imp_right (fun he => ⟨hdurable.trans hd, he⟩)
    · exact Or.inr ⟨hdurable.trans hd, Or.inl (by rw [checked_exec ha, hcheck, Bool.true_or])⟩
  refine ⟨fun k' hk' => ⟨?_, hadm⟩, fun _ => hadm, fun raw hraw' => ?_, fun hoff => ?_, fun hgone => ?_⟩
  · rw [hk] at hk'
    cases hk'
    exact Or.inl (hkey ▸ hk₀)
  · rw [htook.store] at hraw'
    obtain ⟨-, k', hk', heq'⟩ := h.stashed raw hraw'
    exact ⟨hdurable.trans hd, k', Or.inl hk', heq'⟩
  · exact or_exec (h.switched (htook.lock ▸ hoff)) ha
  · rcases removed_of_exec hgone with hr | ⟨hr, -⟩
    · exact absurd (hk.symm.trans (exec_removes hr t.inst).2.1) nofun
    · exact absurd (hraw.symm.trans (h.gone hr).2) nofun

theorem Rules.exec (h : t.Rules) (a : Act) : (t.exec nfkc a).Rules := by
  cases ha : a.restarts with
  | true => exact h.restarted ha
  | false =>
    rcases exec_shape nfkc a t.inst with ⟨k, hgive, hgave⟩ | ⟨-, hquiet | ⟨-, htook⟩⟩
    · exact h.gave ha hgive hgave
    · exact h.quiet ha hquiet
    · exact h.took ha htook

end Step

/-- In every run of the service, with any of its storage calls failing and a keystore that may not answer or not remove: a
key is in memory or in the keystore only if a passphrase gave it; an app that holds a key or shows the ledger does so for
someone who entered a passphrase since it was opened, or who passed the device check, or found it switched off, and
nobody else can switch it off; and once a lock has removed the key there is none until the next passphrase. -/
theorem admitted_only (durable : Bool) (acts : List Act) : (acts.foldl (exec nfkc) (new durable)).Rules := by
  have hrun : ∀ (acts : List Act) (t : Watched), t.Rules → (acts.foldl (exec nfkc) t).Rules := by
    intro acts
    induction acts with
    | nil => exact fun t h => h
    | cons a acts ih => exact fun t h => ih _ (h.exec a)
  exact hrun acts _ (rules_new durable)

/-- A phone that is found with the app closed and the check switched on; it is passed, or not. -/
def found (present : Bool) : Watched :=
  [.command (.create (fun _ => false) (js "passphrase") someRandom), .setBiometricLock false true true, .command .restart,
    .command (.initialise (fun _ => false) [] present)].foldl (exec id) (new true)

example : (found false).inst.vault.masterKey = none ∧ (found false).inst.secureStore.masterKey = some someRandom.key.raw ∧
    (found true).inst.vault.masterKey = some someRandom.key := by
  decide +kernel

end Watched

end Run

end Presence

end EasyDocket
