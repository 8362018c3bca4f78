import EasyDocket.JsNumber
import EasyDocket.Stamp

/-!
# Hybrid logical clocks

Stamps as strings of fixed width, and the clock that issues and observes them, on numbers of any kind.  On stamps of
natural numbers it is the clock of `EasyDocket.Stamp`, and the strings order as the stamps do (`encodeHlc_lt_iff`).
-/

namespace EasyDocket

open Numeral

structure HlcState where
  physical : JsNumber
  counter : JsNumber
  deriving DecidableEq

def PHYSICAL_WIDTH : ℕ := 19

def COUNTER_WIDTH : ℕ := 4

/-- Why a call of the clock threw. -/
inductive HlcError
  | malformed (stamp : JsString)
  | drift (ahead : JsNumber)
  | overflow
  deriving DecidableEq

def hyphen : CodeUnit := unit '-'

def encodeHlc (state : HlcState) (device : JsString) : JsString :=
  padStart PHYSICAL_WIDTH (unit '0') (state.physical.toText 10) ++
    hyphen :: (padStart COUNTER_WIDTH (unit '0') (state.counter.toText 16) ++ hyphen :: device)

def decodeHlc (stamp : JsString) : Except HlcError (HlcState × JsString) :=
  match stamp.splitOn hyphen with
  | [physical, counter, device] =>
    if physical.length ≠ PHYSICAL_WIDTH ∨ counter.length ≠ COUNTER_WIDTH then .error (.malformed stamp)
    else .ok (⟨.number physical, .parseHex counter⟩, device)
  | _ => .error (.malformed stamp)

structure HybridLogicalClock where
  device : JsString
  state : HlcState
  deriving DecidableEq

namespace HybridLogicalClock

/-- `new HybridLogicalClock(device, now, initial)`. -/
def create (device : JsString) (initial : Option HlcState) : HybridLogicalClock :=
  ⟨device, initial.getD ⟨.ofNat 0, .ofNat 0⟩⟩

def snapshot (h : HybridLogicalClock) : HlcState := h.state

/-- The clock in a new state, and its stamp. -/
def stamped (h : HybridLogicalClock) (state : HlcState) : Except HlcError JsString × HybridLogicalClock :=
  (.ok (encodeHlc state h.device), { h with state })

def bump (h : HybridLogicalClock) : Except HlcError JsNumber :=
  if (JsNumber.ofNat MAX_COUNTER).lt h.state.counter.succ then .error .overflow else .ok h.state.counter.succ

/-- `tick`: stamp a locally authored event. -/
def tick (wall : JsNumber) (h : HybridLogicalClock) : Except HlcError JsString × HybridLogicalClock :=
  if h.state.physical.lt wall then h.stamped ⟨wall, .ofNat 0⟩
  else
    match h.bump with
    | .error e => (.error e, h)
    | .ok counter => h.stamped ⟨h.state.physical, counter⟩

/-- The counter that `observe` goes on with. -/
def observedCounter (physical : JsNumber) (h : HybridLogicalClock) (remote : HlcState) : JsNumber :=
  if physical.strictEq h.state.physical && physical.strictEq remote.physical then
    (h.state.counter.max remote.counter).succ
  else if physical.strictEq h.state.physical then h.state.counter.succ
  else if physical.strictEq remote.physical then remote.counter.succ
  else .ofNat 0

/-- `observe`: fold a stamp observed from another device into the clock. -/
def observe (wall : JsNumber) (stamp : JsString) (h : HybridLogicalClock) :
    Except HlcError JsString × HybridLogicalClock :=
  match decodeHlc stamp with
  | .error e => (.error e, h)
  | .ok (remote, _) =>
    if (JsNumber.ofNat MAX_DRIFT_MS).lt (remote.physical.sub wall) then (.error (.drift (remote.physical.sub wall)), h)
    else
      let physical := (wall.max h.state.physical).max remote.physical
      let counter := observedCounter physical h remote
      if (JsNumber.ofNat MAX_COUNTER).lt counter then (.error .overflow, h) else h.stamped ⟨physical, counter⟩

end HybridLogicalClock

/-- `compareHlc`. -/
def compareHlc (a b : JsString) : ℤ := if a < b then -1 else if b < a then 1 else 0

/-! ## Encoded stamps -/

/-- The state of a clock that has only met natural numbers. -/
def HlcState.ofClock (c : Clock) : HlcState := ⟨.ofNat c.physical, .ofNat c.counter⟩

/-- A clock state that has room in a stamp. -/
def Clock.Fits (c : Clock) : Prop := c.physical < 10 ^ PHYSICAL_WIDTH ∧ c.counter ≤ MAX_COUNTER

instance (c : Clock) : Decidable c.Fits := inferInstanceAs (Decidable (_ ∧ _))

/-- `s` is a stamp in the form that `encodeHlc` gives it. -/
def Encoded (s : JsString) : Prop := ∃ c : Clock, c.Fits ∧ ∃ device, hyphen ∉ device ∧ s = encodeHlc (.ofClock c) device

/-- The first two fields of a stamp. -/
def physicalText (c : Clock) : JsString := (fixed 10 PHYSICAL_WIDTH c.physical).map JsNumber.digitText

def counterText (c : Clock) : JsString := (fixed 16 COUNTER_WIDTH c.counter).map JsNumber.digitText

variable {c c' : Clock} {s device device' : JsString}

theorem encodeHlc_ofClock (h : c.Fits) (device : JsString) :
    encodeHlc (.ofClock c) device = physicalText c ++ hyphen :: (counterText c ++ hyphen :: device) := by
  have hzero : JsNumber.digitText 0 = unit '0' := by decide
  have hcounter : c.counter < 16 ^ COUNTER_WIDTH := Nat.lt_succ_of_le h.2
  have hp : padStart PHYSICAL_WIDTH (unit '0') ((JsNumber.ofNat c.physical).toText 10) = physicalText c := by
    rw [JsNumber.toText_ofNat (fun _ => h.1.trans (by decide)), ← hzero, ← padStart_map,
      padStart_numeral (by decide) h.1 (by decide)]
    rfl
  have hc : padStart COUNTER_WIDTH (unit '0') ((JsNumber.ofNat c.counter).toText 16) = counterText c := by
    rw [JsNumber.toText_ofNat (fun h => absurd h (by decide)), ← hzero, ← padStart_map,
      padStart_numeral (by decide) hcounter (by decide)]
    rfl
  show padStart _ _ ((JsNumber.ofNat c.physical).toText 10) ++
    hyphen :: (padStart _ _ ((JsNumber.ofNat c.counter).toText 16) ++ hyphen :: device) = _
  rw [hp, hc]

@[simp] theorem physicalText_length (c : Clock) : (physicalText c).length = PHYSICAL_WIDTH := by
  unfold physicalText
  rw [List.length_map, length_fixed]

@[simp] theorem counterText_length (c : Clock) : (counterText c).length = COUNTER_WIDTH := by
  unfold counterText
  rw [List.length_map, length_fixed]

theorem physicalText_digits (c : Clock) : ∀ x ∈ physicalText c, JsNumber.isLowerDigit 10 x = true :=
  JsNumber.isLowerDigit_of_digits (mem_fixed (by decide) _ _)

theorem counterText_digits (c : Clock) : ∀ x ∈ counterText c, JsNumber.isLowerDigit 16 x = true :=
  JsNumber.isLowerDigit_of_digits (mem_fixed (by decide) _ _)

/-! ## Three fields -/

theorem hyphen_notMem {s : JsString} {b : ℕ} (hb : b ≤ 16) (h : ∀ x ∈ s, JsNumber.isLowerDigit b x = true) :
    hyphen ∉ s := by
  intro hmem
  obtain ⟨d, hd, heq⟩ := JsNumber.isLowerDigit_iff.mp (h hyphen hmem)
  exact (JsNumber.plain_of_lower d (by omega)).2.1 heq

theorem splitOn_append {a : CodeUnit} {p : JsString} (hp : a ∉ p) (s : JsString) :
    (p ++ a :: s).splitOn a = p :: s.splitOn a := by
  unfold List.splitOn
  exact List.splitOnP_append_cons_of_forall_mem (fun x hx => by simpa using ne_of_mem_of_not_mem hx hp) a (by simp) s

theorem splitOn_of_notMem {a : CodeUnit} (h : a ∉ s) : s.splitOn a = [s] := by
  unfold List.splitOn
  exact List.splitOnP_eq_singleton (fun x hx => by simpa using ne_of_mem_of_not_mem hx h)

/-- A text is split at the first separator first. -/
theorem splitOn_eq_cons {a : CodeUnit} {p q : JsString} {rest : List JsString} (h : s.splitOn a = p :: q :: rest) :
    ∃ t, s = p ++ a :: t ∧ a ∉ p ∧ t.splitOn a = q :: rest := by
  by_cases hs : a ∈ s
  · obtain ⟨p', t, rfl, hp'⟩ := List.eq_append_cons_of_mem hs
    rw [splitOn_append hp'] at h
    obtain ⟨rfl, ht⟩ := List.cons.inj h
    exact ⟨t, rfl, hp', ht⟩
  · rw [splitOn_of_notMem hs] at h
    cases h

theorem splitOn_eq_one {a : CodeUnit} {p : JsString} (h : s.splitOn a = [p]) : s = p ∧ a ∉ p := by
  by_cases hs : a ∈ s
  · obtain ⟨p', t, rfl, hp'⟩ := List.eq_append_cons_of_mem hs
    rw [splitOn_append hp'] at h
    have hnil : t.splitOn a = [] := (List.cons.inj h).2
    by_cases ht : a ∈ t
    · obtain ⟨q, u, rfl, hq⟩ := List.eq_append_cons_of_mem ht
      rw [splitOn_append hq] at hnil
      cases hnil
    · rw [splitOn_of_notMem ht] at hnil
      cases hnil
  · rw [splitOn_of_notMem hs] at h
    obtain rfl := (List.cons.inj h).1
    exact ⟨rfl, hs⟩

/-- When a text has three fields. -/
theorem splitOn_eq_three {a : CodeUnit} {p c d : JsString} :
    s.splitOn a = [p, c, d] ↔ s = p ++ a :: (c ++ a :: d) ∧ a ∉ p ∧ a ∉ c ∧ a ∉ d := by
  constructor
  · intro h
    obtain ⟨t, rfl, hp, ht⟩ := splitOn_eq_cons h
    obtain ⟨u, rfl, hc, hu⟩ := splitOn_eq_cons ht
    obtain ⟨rfl, hd⟩ := splitOn_eq_one hu
    exact ⟨rfl, hp, hc, hd⟩
  · rintro ⟨rfl, hp, hc, hd⟩
    rw [splitOn_append hp, splitOn_append hc, splitOn_of_notMem hd]

theorem splitOn_encodeHlc (h : c.Fits) (hd : hyphen ∉ device) :
    (encodeHlc (.ofClock c) device).splitOn hyphen = [physicalText c, counterText c, device] := by
  rw [splitOn_eq_three]
  exact ⟨encodeHlc_ofClock h device, hyphen_notMem (by decide) (physicalText_digits c),
    hyphen_notMem (le_refl 16) (counterText_digits c), hd⟩

/-! ## Decoding -/

/-- What `decodeHlc` accepts, and what it makes of it. -/
theorem decodeHlc_eq_ok {r : HlcState × JsString} : decodeHlc s = .ok r ↔
    ∃ p c d, s.splitOn hyphen = [p, c, d] ∧ p.length = PHYSICAL_WIDTH ∧ c.length = COUNTER_WIDTH ∧
      r = (⟨.number p, .parseHex c⟩, d) := by
  constructor
  · intro h
    unfold decodeHlc at h
    split at h
    · rename_i p c d hsplit
      split_ifs at h with hwidth
      push Not at hwidth
      exact ⟨p, c, d, hsplit, hwidth.1, hwidth.2, (Except.ok.inj h).symm⟩
    · cases h
  · rintro ⟨p, c, d, hsplit, hp, hc, rfl⟩
    unfold decodeHlc
    rw [hsplit]
    exact if_neg (by simp [hp, hc])

theorem number_physicalText (h : c.Fits) : JsNumber.number (physicalText c) = .ofNat c.physical := by
  have hne : physicalText c ≠ [] := by
    intro heq
    cases heq ▸ physicalText_length c
  rw [JsNumber.number_of_digits hne (physicalText_digits c)]
  unfold physicalText
  rw [JsNumber.valueIn_digits (by decide) (mem_fixed (by decide) _ _), value_fixed _ _ h.1]

theorem parseHex_counterText (h : c.Fits) : JsNumber.parseHex (counterText c) = .ofNat c.counter := by
  have hne : counterText c ≠ [] := by
    intro heq
    cases heq ▸ counterText_length c
  rw [JsNumber.parseHex_of_digits hne (counterText_digits c)]
  unfold counterText
  rw [JsNumber.valueIn_digits (by decide) (mem_fixed (by decide) _ _), value_fixed _ _ (Nat.lt_succ_of_le h.2)]

/-- Fields in digits are those of a clock. -/
theorem exists_clock {p k : JsString} (hp : p.length = PHYSICAL_WIDTH) (hk : k.length = COUNTER_WIDTH)
    (hpd : ∀ x ∈ p, JsNumber.isLowerDigit 10 x = true) (hkd : ∀ x ∈ k, JsNumber.isLowerDigit 16 x = true) :
    ∃ c : Clock, c.Fits ∧ p = physicalText c ∧ k = counterText c := by
  obtain ⟨ds, hds, rfl⟩ := JsNumber.exists_digits hpd
  obtain ⟨es, hes, rfl⟩ := JsNumber.exists_digits hkd
  rw [List.length_map] at hp hk
  refine ⟨⟨value 10 ds, value 16 es⟩, ⟨value_lt _ ds hp hds, ?_⟩, ?_, ?_⟩
  · exact Nat.le_of_lt_succ (value_lt COUNTER_WIDTH es hk hes)
  · unfold physicalText
    rw [fixed_value PHYSICAL_WIDTH ds hp hds]
  · unfold counterText
    rw [fixed_value COUNTER_WIDTH es hk hes]

/-- A stamp in the right form is decoded to what it was made from. -/
theorem decodeHlc_encodeHlc (h : c.Fits) (hd : hyphen ∉ device) :
    decodeHlc (encodeHlc (.ofClock c) device) = .ok (.ofClock c, device) := by
  rw [decodeHlc_eq_ok]
  refine ⟨_, _, _, splitOn_encodeHlc h hd, physicalText_length c, counterText_length c, ?_⟩
  rw [number_physicalText h, parseHex_counterText h]
  rfl

/-! ## Clocks of natural numbers -/

namespace HybridLogicalClock

variable {wall : ℕ} {remote : Stamp}

/-- A clock that has only met natural numbers. -/
def ofClock (device : JsString) (c : Clock) : HybridLogicalClock := ⟨device, .ofClock c⟩

theorem bump_ofClock (device : JsString) (c : Clock) : (ofClock device c).bump =
    if c.counter + 1 > MAX_COUNTER then .error .overflow else .ok (.ofNat (c.counter + 1)) := by
  have hsucc : (ofClock device c).state.counter.succ = .ofNat (c.counter + 1) := JsNumber.succ_ofNat c.counter
  unfold bump
  rw [hsucc, JsNumber.lt_ofNat]
  simp only [decide_eq_true_eq]

/-- On natural numbers, a tick is one of the abstract clock. -/
theorem tick_ofClock (device : JsString) (c : Clock) (wall : ℕ) : (ofClock device c).tick (.ofNat wall) =
    match c.tick wall with
    | .ok c' => (.ok (encodeHlc (.ofClock c') device), ofClock device c')
    | .error _ => (.error .overflow, ofClock device c) := by
  unfold tick Clock.tick
  rw [bump_ofClock]
  show (if (JsNumber.ofNat c.physical).lt (JsNumber.ofNat wall) = true then _ else _) = _
  rw [JsNumber.lt_ofNat]
  simp only [decide_eq_true_eq]
  unfold Clock.bump
  split_ifs <;> rfl

theorem observedCounter_ofClock (device : JsString) (c : Clock) (physical : ℕ) (remote : Stamp) :
    observedCounter (.ofNat physical) (ofClock device c) (.ofClock ⟨remote.physical, remote.counter⟩) =
      .ofNat (c.observedCounter physical remote) := by
  unfold observedCounter Clock.observedCounter
  show (if ((JsNumber.ofNat physical).strictEq (JsNumber.ofNat c.physical) &&
      (JsNumber.ofNat physical).strictEq (JsNumber.ofNat remote.physical)) = true
    then ((JsNumber.ofNat c.counter).max (JsNumber.ofNat remote.counter)).succ
    else if (JsNumber.ofNat physical).strictEq (JsNumber.ofNat c.physical) = true then (JsNumber.ofNat c.counter).succ
    else if (JsNumber.ofNat physical).strictEq (JsNumber.ofNat remote.physical) = true
    then (JsNumber.ofNat remote.counter).succ else JsNumber.ofNat 0) = _
  simp only [JsNumber.strictEq_ofNat, JsNumber.max_ofNat, JsNumber.succ_ofNat, Bool.and_eq_true, decide_eq_true_eq]
  split_ifs <;> rfl

/-- On natural numbers, an observation is one of the abstract clock. -/
theorem observe_ofClock {device' : JsString} (device : JsString) (c : Clock) (wall : ℕ) (remote : Stamp)
    (h : decodeHlc s = .ok (.ofClock ⟨remote.physical, remote.counter⟩, device')) :
    match c.observe wall remote with
    | .ok c' => (ofClock device c).observe (.ofNat wall) s = (.ok (encodeHlc (.ofClock c') device), ofClock device c')
    | .error _ => ∃ e, (ofClock device c).observe (.ofNat wall) s = (.error e, ofClock device c) := by
  have hmax : ((JsNumber.ofNat wall).max (JsNumber.ofNat c.physical)).max (JsNumber.ofNat remote.physical) =
      .ofNat (max wall (max c.physical remote.physical)) := by
    rw [JsNumber.max_ofNat, JsNumber.max_ofNat]
    exact congrArg JsNumber.ofNat (max_assoc wall c.physical remote.physical)
  have hobserve : (ofClock device c).observe (.ofNat wall) s =
      if remote.physical - wall > MAX_DRIFT_MS then
        (.error (.drift ((JsNumber.ofNat remote.physical).sub (JsNumber.ofNat wall))), ofClock device c)
      else if c.observedCounter (max wall (max c.physical remote.physical)) remote > MAX_COUNTER then
        (.error .overflow, ofClock device c)
      else (ofClock device c).stamped (.ofClock ⟨max wall (max c.physical remote.physical),
        c.observedCounter (max wall (max c.physical remote.physical)) remote⟩) := by
    unfold observe
    rw [h]
    show (if (JsNumber.ofNat MAX_DRIFT_MS).lt ((JsNumber.ofNat remote.physical).sub (JsNumber.ofNat wall)) = true then _
      else if (JsNumber.ofNat MAX_COUNTER).lt (observedCounter
        (((JsNumber.ofNat wall).max (JsNumber.ofNat c.physical)).max (JsNumber.ofNat remote.physical)) (ofClock device c)
          (.ofClock ⟨remote.physical, remote.counter⟩)) = true then _ else (ofClock device c).stamped
        ⟨((JsNumber.ofNat wall).max (JsNumber.ofNat c.physical)).max (JsNumber.ofNat remote.physical), observedCounter
          (((JsNumber.ofNat wall).max (JsNumber.ofNat c.physical)).max (JsNumber.ofNat remote.physical)) (ofClock device c)
            (.ofClock ⟨remote.physical, remote.counter⟩)⟩) = _
    rw [hmax, observedCounter_ofClock, JsNumber.lt_sub_ofNat, JsNumber.lt_ofNat]
    simp only [decide_eq_true_eq]
    rfl
  unfold Clock.observe
  split_ifs with hdrift
  · exact ⟨_, by rw [hobserve, if_pos hdrift]⟩
  · dsimp only
    split_ifs with hcounter
    · exact ⟨_, by rw [hobserve, if_neg hdrift, if_pos hcounter]⟩
    · rw [hobserve, if_neg hdrift, if_neg hcounter]
      rfl

end HybridLogicalClock

theorem Clock.Fits.tick {wall : ℕ} (h : c.Fits) (hwall : wall < 10 ^ PHYSICAL_WIDTH) (ht : c.tick wall = .ok c') :
    c'.Fits := by
  unfold Clock.tick Clock.bump at ht
  split_ifs at ht with hw hb
  · cases ht
    exact ⟨hwall, Nat.zero_le _⟩
  · cases ht
  · cases ht
    exact ⟨h.1, not_lt.mp hb⟩

theorem Clock.Fits.observe {wall : ℕ} {remote : Stamp} (h : c.Fits) (hwall : wall < 10 ^ PHYSICAL_WIDTH)
    (hremote : remote.physical < 10 ^ PHYSICAL_WIDTH) (ho : c.observe wall remote = .ok c') : c'.Fits := by
  unfold Clock.observe at ho
  split_ifs at ho with hd
  · dsimp only at ho
    split_ifs at ho with hc
    cases ho
    exact ⟨max_lt hwall (max_lt h.1 hremote), not_lt.mp hc⟩

/-! ## Which stamps are decoded rightly -/

/-- A text with three fields of the right widths has digits in the first two. -/
def WellWritten (s : JsString) : Prop :=
  ∀ p c d, s.splitOn hyphen = [p, c, d] → p.length = PHYSICAL_WIDTH → c.length = COUNTER_WIDTH →
    (∀ x ∈ p, JsNumber.isLowerDigit 10 x = true) ∧ ∀ x ∈ c, JsNumber.isLowerDigit 16 x = true

/-- A clock that is left as it was by a call that throws, or in natural numbers, from which its stamps go on. -/
def LeavesClock (device : JsString) (c : Clock) (result : Except HlcError JsString × HybridLogicalClock) : Prop :=
  (∃ e, result = (.error e, .ofClock device c)) ∨
  ∃ c' : Clock, c'.Fits ∧ result = (.ok (encodeHlc (.ofClock c') device), .ofClock device c') ∧
    ∀ wall < 10 ^ PHYSICAL_WIDTH, ∀ stamp h', result.2.tick (.ofNat wall) = (.ok stamp, h') → Encoded stamp

/-- `decodeHlc` accepts the text if and only if it has been encoded, and clocks may observe it. -/
structure DecodesRight (s : JsString) : Prop where
  accepts : (∃ r, decodeHlc s = .ok r) ↔ Encoded s
  encodes : ∀ state device, decodeHlc s = .ok (state, device) → encodeHlc state device = s
  observed : ∀ (device : JsString) (c : Clock) (wall : ℕ), hyphen ∉ device → c.Fits → wall < 10 ^ PHYSICAL_WIDTH →
    LeavesClock device c ((HybridLogicalClock.ofClock device c).observe (.ofNat wall) s)

theorem Encoded.wellWritten (h : Encoded s) : WellWritten s := by
  obtain ⟨c, hc, device, hd, rfl⟩ := h
  intro p k d hsplit _ _
  rw [splitOn_encodeHlc hc hd] at hsplit
  obtain ⟨rfl, hrest⟩ := List.cons.inj hsplit
  obtain ⟨rfl, -⟩ := List.cons.inj hrest
  exact ⟨physicalText_digits c, counterText_digits c⟩

/-- What is accepted and written in digits has been encoded. -/
theorem WellWritten.encoded {state : HlcState} (h : WellWritten s) (hr : decodeHlc s = .ok (state, device)) :
    ∃ c : Clock, c.Fits ∧ hyphen ∉ device ∧ state = .ofClock c ∧ s = encodeHlc (.ofClock c) device := by
  obtain ⟨p, k, d, hsplit, hp, hk, heq⟩ := decodeHlc_eq_ok.mp hr
  obtain ⟨hstate, rfl⟩ := Prod.mk.inj heq
  obtain ⟨hpd, hkd⟩ := h p k device hsplit hp hk
  obtain ⟨hs, -, -, hd⟩ := splitOn_eq_three.mp hsplit
  obtain ⟨c, hc, hpc, hkc⟩ := exists_clock hp hk hpd hkd
  refine ⟨c, hc, hd, ?_, ?_⟩
  · rw [hstate, hpc, hkc, number_physicalText hc, parseHex_counterText hc]
    rfl
  · rw [hs, hpc, hkc]
    exact (encodeHlc_ofClock hc device).symm

theorem leavesClock_observe {remote : Stamp} {wall : ℕ} (hc : c.Fits) (hd : hyphen ∉ device)
    (hwall : wall < 10 ^ PHYSICAL_WIDTH) (hremote : remote.physical < 10 ^ PHYSICAL_WIDTH)
    (hr : decodeHlc s = .ok (.ofClock ⟨remote.physical, remote.counter⟩, device')) :
    LeavesClock device c ((HybridLogicalClock.ofClock device c).observe (.ofNat wall) s) := by
  have hobserve := HybridLogicalClock.observe_ofClock device c wall remote hr
  cases ho : c.observe wall remote with
  | error e =>
    rw [ho] at hobserve
    exact Or.inl hobserve
  | ok c' =>
    rw [ho] at hobserve
    have hc' := hc.observe hwall hremote ho
    refine Or.inr ⟨c', hc', hobserve, fun wall' hwall' stamp h' ht => ?_⟩
    dsimp only at hobserve
    rw [hobserve, HybridLogicalClock.tick_ofClock] at ht
    cases htick : c'.tick wall' with
    | error e =>
      rw [htick] at ht
      cases ht
    | ok c'' =>
      rw [htick] at ht
      cases ht
      exact ⟨c'', hc'.tick hwall' htick, device, hd, rfl⟩

/-- A text is decoded rightly if and only if it has no three fields of the right widths, or digits in the first two. -/
theorem decodesRight_iff (s : JsString) : DecodesRight s ↔ WellWritten s := by
  constructor
  · intro h p k d hsplit hp hk
    have hok : decodeHlc s = .ok (⟨.number p, .parseHex k⟩, d) := decodeHlc_eq_ok.mpr ⟨p, k, d, hsplit, hp, hk, rfl⟩
    exact (h.accepts.mp ⟨_, hok⟩).wellWritten p k d hsplit hp hk
  · intro h
    refine ⟨⟨?_, ?_⟩, ?_, ?_⟩
    · rintro ⟨⟨state, device⟩, hr⟩
      obtain ⟨c, hc, hd, -, hs⟩ := h.encoded hr
      exact ⟨c, hc, device, hd, hs⟩
    · rintro ⟨c, hc, device, hd, rfl⟩
      exact ⟨_, decodeHlc_encodeHlc hc hd⟩
    · intro state device hr
      obtain ⟨c, -, -, hstate, hs⟩ := h.encoded hr
      rw [hstate]
      exact hs.symm
    · intro device c wall hd hc hwall
      cases hr : decodeHlc s with
      | error e =>
        refine Or.inl ⟨e, ?_⟩
        unfold HybridLogicalClock.observe
        rw [hr]
      | ok r =>
        obtain ⟨state, device'⟩ := r
        obtain ⟨c', hc', -, rfl, -⟩ := h.encoded hr
        exact @leavesClock_observe c s device device' ⟨c'.physical, c'.counter, device'⟩ wall hc hd hwall hc'.1 hr

/-- A stamp without a number in it. -/
def nanStamp : JsString := js "0000000000000000NaN-0000-a"

/-- A stamp without a number in it is accepted, and leaves a clock without a time for good. -/
theorem nan_stamp_poisons : ¬ DecodesRight nanStamp ∧
    HybridLogicalClock.observe (.ofNat 5) nanStamp (.ofClock (js "b") ⟨3, 0⟩) =
      (.ok (js "0000000000000000NaN-0000-b"), ⟨js "b", .nan, .ofNat 0⟩) ∧
    ∀ wall : ℕ, (HybridLogicalClock.tick (.ofNat wall) ⟨js "b", .nan, .ofNat 0⟩).2.state.physical = .nan := by
  have hbump : HybridLogicalClock.bump ⟨js "b", .nan, .ofNat 0⟩ = .ok (.ofNat 1) := by decide +kernel
  refine ⟨fun h => ?_, by decide +kernel, fun wall => ?_⟩
  · have hok : decodeHlc nanStamp = .ok (⟨.nan, .ofNat 0⟩, js "a") := by decide +kernel
    have hdigits := (h.accepts.mp ⟨_, hok⟩).wellWritten (js "0000000000000000NaN") (js "0000") (js "a") (by decide +kernel)
      (by decide +kernel) (by decide +kernel)
    have hn := hdigits.1 (unit 'N') (by decide +kernel)
    revert hn
    decide +kernel
  · unfold HybridLogicalClock.tick
    rw [hbump]
    rfl

end EasyDocket
