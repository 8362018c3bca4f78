import EasyDocket.Hlc

/-!
# Runs of a clock

Whatever the wall clock reads and whatever stamps are observed, the stamps of a clock increase as strings.  Behind it is
the order of the encoded stamps, which is that of their parts (`encodeHlc_lt_iff`).
-/

namespace EasyDocket

open Numeral HybridLogicalClock

variable {a b c c' : Clock} {device device' s : JsString}

/-! ## The order of stamps -/

theorem fixedText_lt_iff {base w n m : ℕ} (hb : base ≤ 36) (hpos : 0 < base) (hn : n < base ^ w) (hm : m < base ^ w) :
    (fixed base w n).map JsNumber.digitText < (fixed base w m).map JsNumber.digitText ↔ n < m := by
  have hdigit : ∀ {x y : ℕ}, x < base → y < base → (JsNumber.digitText x < JsNumber.digitText y ↔ x < y) :=
    fun hx hy => JsNumber.digitText_lt_iff _ (hx.trans_le hb) _ (hy.trans_le hb)
  rw [map_lt_map_iff hdigit (mem_fixed hpos w n) (mem_fixed hpos w m), fixed_lt_iff hn hm]

theorem physicalText_lt_iff (ha : a.Fits) (hb : b.Fits) : physicalText a < physicalText b ↔ a.physical < b.physical :=
  fixedText_lt_iff (by decide) (by decide) ha.1 hb.1

theorem counterText_lt_iff (ha : a.Fits) (hb : b.Fits) : counterText a < counterText b ↔ a.counter < b.counter :=
  fixedText_lt_iff (by decide) (by decide) (Nat.lt_succ_of_le ha.2) (Nat.lt_succ_of_le hb.2)

theorem physicalText_eq_iff (ha : a.Fits) (hb : b.Fits) : physicalText a = physicalText b ↔ a.physical = b.physical := by
  constructor
  · intro h
    have hlt := physicalText_lt_iff ha hb
    have hgt := physicalText_lt_iff hb ha
    rw [h] at hlt hgt
    have h1 := mt hlt.mpr (lt_irrefl _)
    have h2 := mt hgt.mpr (lt_irrefl _)
    omega
  · intro h
    unfold physicalText
    rw [h]

theorem counterText_eq_iff (ha : a.Fits) (hb : b.Fits) : counterText a = counterText b ↔ a.counter = b.counter := by
  constructor
  · intro h
    have hlt := counterText_lt_iff ha hb
    have hgt := counterText_lt_iff hb ha
    rw [h] at hlt hgt
    have h1 := mt hlt.mpr (lt_irrefl _)
    have h2 := mt hgt.mpr (lt_irrefl _)
    omega
  · intro h
    unfold counterText
    rw [h]

/-- Three fields compare one after the other, if the first two have fixed widths. -/
theorem fields_lt_iff {p p' k k' d d' : JsString} (hp : p.length = p'.length) (hk : k.length = k'.length) :
    p ++ hyphen :: (k ++ hyphen :: d) < p' ++ hyphen :: (k' ++ hyphen :: d') ↔
      p < p' ∨ p = p' ∧ (k < k' ∨ k = k' ∧ d < d') := by
  rw [lt_append_iff hp, List.cons_lt_cons_iff, lt_append_iff hk, List.cons_lt_cons_iff]
  simp only [lt_irrefl, false_or, true_and]

/-- Encoded stamps compare as their parts do. -/
theorem encodeHlc_lt_iff (ha : a.Fits) (hb : b.Fits) :
    encodeHlc (.ofClock a) device < encodeHlc (.ofClock b) device' ↔ a.stamp device < b.stamp device' := by
  have htime : (a.stamp device).time = (b.stamp device').time ↔ a.physical = b.physical ∧ a.counter = b.counter := by
    show toLex (a.physical, a.counter) = toLex (b.physical, b.counter) ↔ _
    rw [EmbeddingLike.apply_eq_iff_eq, Prod.mk.injEq]
  have hfields := @fields_lt_iff (physicalText a) (physicalText b) (counterText a) (counterText b) device device'
    ((physicalText_length a).trans (physicalText_length b).symm) ((counterText_length a).trans (counterText_length b).symm)
  rw [physicalText_lt_iff ha hb, counterText_lt_iff ha hb, physicalText_eq_iff ha hb, counterText_eq_iff ha hb] at hfields
  have hstamp : a.stamp device < b.stamp device' ↔
      (a.physical < b.physical ∨ a.physical = b.physical ∧ a.counter < b.counter) ∨
        (a.physical = b.physical ∧ a.counter = b.counter) ∧ device < device' := by
    rw [Stamp.lt_iff, htime, Stamp.time_lt_iff]
    rfl
  rw [encodeHlc_ofClock ha, encodeHlc_ofClock hb, hfields, hstamp]
  constructor
  · rintro (hp | ⟨hp, hc | ⟨hc, hd⟩⟩)
    · exact Or.inl (Or.inl hp)
    · exact Or.inl (Or.inr ⟨hp, hc⟩)
    · exact Or.inr ⟨⟨hp, hc⟩, hd⟩
  · rintro ((hp | ⟨hp, hc⟩) | ⟨⟨hp, hc⟩, hd⟩)
    · exact Or.inl hp
    · exact Or.inr ⟨hp, Or.inl hc⟩
    · exact Or.inr ⟨hp, Or.inr ⟨hc, hd⟩⟩

theorem compareHlc_neg {a b : JsString} : compareHlc a b < 0 ↔ a < b := by
  unfold compareHlc
  split_ifs with h h'
  · simp [h]
  · simp [h]
  · simp [h]

theorem encodeHlc_lt_of_time (ha : a.Fits) (hb : b.Fits) (h : a.time < b.time) :
    encodeHlc (.ofClock a) device < encodeHlc (.ofClock b) device' :=
  (encodeHlc_lt_iff ha hb).mpr (Stamp.lt_of_time_lt h)

/-! ## What one observation does -/

/-- The clock is ahead of what it has observed. -/
theorem Clock.lt_of_observe {wall : ℕ} {remote : Stamp} (h : c.observe wall remote = .ok c') : remote.time < c'.time := by
  unfold Clock.observe at h
  split_ifs at h with hd
  · dsimp only at h
    split_ifs at h with hc
    cases h
    show toLex (remote.physical, remote.counter) < toLex (max wall (max c.physical remote.physical), _)
    rw [Prod.Lex.toLex_lt_toLex]
    unfold Clock.observedCounter
    dsimp only
    split_ifs <;> omega

/-- A clock never gets further ahead of the wall clock than a remote stamp may be. -/
theorem Clock.observe_le {wall : ℕ} {remote : Stamp} (h : c.observe wall remote = .ok c') :
    c'.physical ≤ c.physical ∨ c'.physical ≤ wall + MAX_DRIFT_MS := by
  unfold Clock.observe at h
  split_ifs at h with hd
  · dsimp only at h
    split_ifs at h with hc
    cases h
    show max wall (max c.physical remote.physical) ≤ c.physical ∨ max wall (max c.physical remote.physical) ≤ _
    omega

theorem Clock.tick_le {wall : ℕ} (h : c.tick wall = .ok c') : c'.physical ≤ c.physical ∨ c'.physical ≤ wall + MAX_DRIFT_MS := by
  unfold Clock.tick Clock.bump at h
  split_ifs at h with hw hb
  · cases h
    exact Or.inr (Nat.le_add_right _ _)
  · cases h
  · cases h
    exact Or.inl (le_refl _)

/-! ## Calls -/

/-- A call of a clock, with the reading of the wall clock; `rebuild` makes a new clock of the current snapshot. -/
inductive ClockCall
  | tick (wall : ℕ)
  | observe (wall : ℕ) (remote : JsString)
  | rebuild

namespace ClockCall

/-- What a call returns, if anything, and the clock after it. -/
def perform (h : HybridLogicalClock) : ClockCall → Option (Except HlcError JsString) × HybridLogicalClock
  | .tick wall => ((h.tick (.ofNat wall)).1, (h.tick (.ofNat wall)).2)
  | .observe wall remote => ((h.observe (.ofNat wall) remote).1, (h.observe (.ofNat wall) remote).2)
  | .rebuild => (none, create h.device (some h.snapshot))

/-- The stamps that a call has returned or observed. -/
def stamps (result : Option (Except HlcError JsString)) : ClockCall → List JsString
  | .observe _ remote =>
    match result with
    | some (.ok stamp) => [remote, stamp]
    | _ => []
  | _ =>
    match result with
    | some (.ok stamp) => [stamp]
    | _ => []

def walls : ClockCall → List ℕ
  | .tick wall => [wall]
  | .observe wall _ => [wall]
  | .rebuild => []

/-- Wall clocks read at most 19 digits, and remote stamps with fields of the right widths have been encoded. -/
def Admissible : ClockCall → Prop
  | .tick wall => wall < 10 ^ PHYSICAL_WIDTH
  | .observe wall remote => wall < 10 ^ PHYSICAL_WIDTH ∧ WellWritten remote
  | .rebuild => True

end ClockCall

/-- The clock after some calls, and the stamps it has returned and observed. -/
def runCalls (h : HybridLogicalClock) (calls : List ClockCall) : HybridLogicalClock × List JsString :=
  calls.foldl (fun acc call => ((call.perform acc.1).2, acc.2 ++ call.stamps (call.perform acc.1).1)) (h, [])

/-- A stamp that the clock state is at or past. -/
def SeenBy (c : Clock) (x : JsString) : Prop :=
  ∃ c' : Clock, c'.Fits ∧ c'.time ≤ c.time ∧ ∃ device, x = encodeHlc (.ofClock c') device

/-- What a call does to a clock of natural numbers. -/
structure Performed (device : JsString) (c c' : Clock) (call : ClockCall) : Prop where
  fits : c'.Fits
  state : (call.perform (ofClock device c)).2 = ofClock device c'
  time : c.time ≤ c'.time
  stamps : ∀ x ∈ call.stamps (call.perform (ofClock device c)).1, SeenBy c' x
  returned : ∀ stamp, (call.perform (ofClock device c)).1 = some (.ok stamp) → stamp = encodeHlc (.ofClock c') device ∧
    c.time < c'.time ∧ ∀ wall remote, call = .observe wall remote → remote < stamp
  thrown : ∀ e, (call.perform (ofClock device c)).1 = some (.error e) → c' = c
  bounded : c'.physical ≤ c.physical ∨ ∃ wall ∈ call.walls, c'.physical ≤ wall + MAX_DRIFT_MS

theorem SeenBy.mono {x : JsString} (h : SeenBy c x) (hle : c.time ≤ c'.time) : SeenBy c' x := by
  obtain ⟨c₀, hfits, hle₀, device, hx⟩ := h
  exact ⟨c₀, hfits, hle₀.trans hle, device, hx⟩

theorem SeenBy.lt {x : JsString} (h : SeenBy c x) (hc' : c'.Fits) (hlt : c.time < c'.time) (device : JsString) :
    x < encodeHlc (.ofClock c') device := by
  obtain ⟨c₀, hfits, hle₀, device', rfl⟩ := h
  exact encodeHlc_lt_of_time hfits hc' (hle₀.trans_lt hlt)

theorem performed_tick {wall : ℕ} (hc : c.Fits) (hwall : wall < 10 ^ PHYSICAL_WIDTH) :
    ∃ c', Performed device c c' (.tick wall) := by
  have htick := tick_ofClock device c wall
  have hresult : ClockCall.perform (ofClock device c) (.tick wall) =
      (some ((ofClock device c).tick (.ofNat wall)).1, ((ofClock device c).tick (.ofNat wall)).2) := rfl
  cases ht : c.tick wall with
  | error e =>
    rw [ht] at htick
    rw [htick] at hresult
    refine ⟨c, hc, congrArg Prod.snd hresult, le_refl _, ?_, ?_, fun _ _ => rfl, Or.inl (le_refl _)⟩
    · rw [hresult]
      exact fun x hx => absurd hx List.not_mem_nil
    · rw [hresult]
      exact fun stamp h => nomatch h
  | ok c' =>
    rw [ht] at htick
    rw [htick] at hresult
    have hc' := hc.tick hwall ht
    have hlt := Clock.time_lt_tick ht
    refine ⟨c', hc', congrArg Prod.snd hresult, hlt.le, ?_, ?_, ?_, (Clock.tick_le ht).imp_right (fun h => ⟨wall, by simp [ClockCall.walls], h⟩)⟩
    · rw [hresult]
      intro x hx
      rw [List.mem_singleton.mp hx]
      exact ⟨c', hc', le_refl _, device, rfl⟩
    · rw [hresult]
      intro stamp h
      cases h
      exact ⟨rfl, hlt, fun wall remote h => nomatch h⟩
    · rw [hresult]
      exact fun e h => nomatch h

theorem performed_observe {wall : ℕ} {remote : JsString} (hc : c.Fits) (hwall : wall < 10 ^ PHYSICAL_WIDTH)
    (hremote : WellWritten remote) : ∃ c', Performed device c c' (.observe wall remote) := by
  have hresult : ClockCall.perform (ofClock device c) (.observe wall remote) =
      (some ((ofClock device c).observe (.ofNat wall) remote).1, ((ofClock device c).observe (.ofNat wall) remote).2) := rfl
  have hthrown : ∀ e, (ofClock device c).observe (.ofNat wall) remote = (.error e, ofClock device c) →
      Performed device c c (.observe wall remote) := by
    intro e he
    rw [he] at hresult
    refine ⟨hc, congrArg Prod.snd hresult, le_refl _, ?_, ?_, fun _ _ => rfl, Or.inl (le_refl _)⟩
    · rw [hresult]
      exact fun x hx => absurd hx List.not_mem_nil
    · rw [hresult]
      exact fun stamp h => nomatch h
  cases hr : decodeHlc remote with
  | error e =>
    refine ⟨c, hthrown e ?_⟩
    unfold HybridLogicalClock.observe
    rw [hr]
  | ok r =>
    obtain ⟨state, author⟩ := r
    obtain ⟨r, hr', -, rfl, hencoded⟩ := hremote.encoded hr
    have hobserve := observe_ofClock device c wall ⟨r.physical, r.counter, author⟩ hr
    cases ho : c.observe wall ⟨r.physical, r.counter, author⟩ with
    | error e =>
      rw [ho] at hobserve
      obtain ⟨e, he⟩ := hobserve
      exact ⟨c, hthrown e he⟩
    | ok c' =>
      rw [ho] at hobserve
      dsimp only at hobserve
      rw [hobserve] at hresult
      have hc' := hc.observe hwall hr'.1 ho
      have hlt := Clock.time_lt_observe ho
      have hahead : r.time < c'.time := Clock.lt_of_observe ho
      refine ⟨c', hc', congrArg Prod.snd hresult, hlt.le, ?_, ?_, ?_,
        (Clock.observe_le ho).imp_right (fun h => ⟨wall, by simp [ClockCall.walls], h⟩)⟩
      · rw [hresult]
        intro x hx
        rcases List.mem_cons.mp hx with rfl | hx
        · exact ⟨r, hr', hahead.le, author, hencoded⟩
        · rw [List.mem_singleton.mp hx]
          exact ⟨c', hc', le_refl _, device, rfl⟩
      · rw [hresult]
        intro stamp h
        cases h
        refine ⟨rfl, hlt, fun _ _ h => ?_⟩
        cases h
        rw [hencoded]
        exact encodeHlc_lt_of_time hr' hc' hahead
      · rw [hresult]
        exact fun e h => nomatch h

/-- The step lemma: what a call does. -/
theorem performed {call : ClockCall} (hc : c.Fits) (h : call.Admissible) : ∃ c', Performed device c c' call := by
  cases call with
  | tick wall => exact performed_tick hc h
  | observe wall remote => exact performed_observe hc h.1 h.2
  | rebuild =>
    refine ⟨c, hc, rfl, le_refl _, ?_, ?_, fun _ _ => rfl, Or.inl (le_refl _)⟩
    · exact fun x hx => absurd hx List.not_mem_nil
    · exact fun stamp h => nomatch h

/-- The run lemma: what some calls do. -/
theorem runCalls_spec (hc : c.Fits) : ∀ (calls : List ClockCall), (∀ call ∈ calls, call.Admissible) →
    ∃ c' : Clock, c'.Fits ∧ (runCalls (ofClock device c) calls).1 = ofClock device c' ∧
      (∀ x ∈ (runCalls (ofClock device c) calls).2, SeenBy c' x) ∧
      (c'.physical ≤ c.physical ∨ ∃ wall ∈ calls.flatMap ClockCall.walls, c'.physical ≤ wall + MAX_DRIFT_MS) := by
  intro calls
  induction calls using List.reverseRecOn with
  | nil => exact fun _ => ⟨c, hc, rfl, fun x hx => absurd hx List.not_mem_nil, Or.inl (le_refl _)⟩
  | append_singleton calls call ih =>
    intro hok
    obtain ⟨c₁, hc₁, hstate, hseen, hbound⟩ := ih (fun call h => hok call (List.mem_append_left _ h))
    obtain ⟨c', hp⟩ := @performed c₁ device call hc₁ (hok call (by simp))
    have hrun : runCalls (ofClock device c) (calls ++ [call]) =
        ((call.perform (ofClock device c₁)).2, (runCalls (ofClock device c) calls).2 ++
          call.stamps (call.perform (ofClock device c₁)).1) := by
      rw [← hstate]
      unfold runCalls
      rw [List.foldl_append]
      rfl
    rw [hrun]
    refine ⟨c', hp.fits, hp.state, fun x hx => ?_, ?_⟩
    · rcases List.mem_append.mp hx with hx | hx
      · exact (hseen x hx).mono hp.time
      · exact hp.stamps x hx
    · have hwalls : (calls ++ [call]).flatMap ClockCall.walls = calls.flatMap ClockCall.walls ++ call.walls := by
        rw [List.flatMap_append, List.flatMap_singleton]
      rw [hwalls]
      rcases hp.bounded with hle | ⟨wall, hwall, hle⟩
      · rcases hbound with hle' | ⟨wall, hwall, hle'⟩
        · exact Or.inl (hle.trans hle')
        · exact Or.inr ⟨wall, List.mem_append_left _ hwall, hle.trans hle'⟩
      · exact Or.inr ⟨wall, List.mem_append_right _ hwall, hle⟩

/-- After any calls, the next one returns a stamp greater than all that were returned or observed, or throws and leaves
the clock as it was; and the clock is ahead of its first state by what the wall clock allows. -/
theorem stamps_increase (hc : c.Fits) (calls : List ClockCall) (call : ClockCall) (hok : ∀ x ∈ calls ++ [call], x.Admissible) :
    let before := runCalls (ofClock device c) calls
    let result := call.perform before.1
    (∀ stamp, result.1 = some (.ok stamp) → (∀ x ∈ before.2, compareHlc x stamp < 0) ∧
      ∀ wall remote, call = .observe wall remote → compareHlc remote stamp < 0) ∧
    (∀ e, result.1 = some (.error e) → result.2 = before.1) ∧
    ∃ c', result.2 = ofClock device c' ∧
      (c'.physical ≤ c.physical ∨ ∃ wall ∈ (calls ++ [call]).flatMap ClockCall.walls, c'.physical ≤ wall + MAX_DRIFT_MS) := by
  obtain ⟨c₁, hc₁, hstate, hseen, -⟩ := @runCalls_spec c device hc calls (fun call h => hok call (List.mem_append_left _ h))
  obtain ⟨c', hp⟩ := @performed c₁ device call hc₁ (hok call (by simp))
  obtain ⟨c₂, -, hstate₂, -, hbound₂⟩ := @runCalls_spec c device hc (calls ++ [call]) hok
  dsimp only
  refine ⟨fun stamp hstamp => ?_, fun e he => ?_, c₂, ?_, hbound₂⟩
  · rw [hstate] at hstamp
    obtain ⟨rfl, hlt, hremote⟩ := hp.returned stamp hstamp
    exact ⟨fun x hx => compareHlc_neg.mpr ((hseen x hx).lt hp.fits hlt device),
      fun wall remote h => compareHlc_neg.mpr (hremote wall remote h)⟩
  · rw [hstate] at he ⊢
    rw [hp.state, hp.thrown e he]
  · rw [← hstate₂]
    unfold runCalls
    rw [List.foldl_append]
    rfl

/-- A clock that goes backwards, a stamp from ahead, and a new clock of the snapshot. -/
theorem stamps_increase_backwards : compareHlc (js "0000000000000000009-0000-b") (js "0000000000000000009-0002-a") < 0 := by
  have hwall : ∀ wall < 10, wall < 10 ^ PHYSICAL_WIDTH := fun wall h => h.trans (by decide)
  have h := (@stamps_increase ⟨0, 0⟩ (js "a") (by decide)
    [.tick 7, .observe 3 (encodeHlc (.ofClock ⟨9, 0⟩) (js "b")), .rebuild] (.tick 2) (by
      have hremote : Encoded (encodeHlc (.ofClock ⟨9, 0⟩) (js "b")) := ⟨⟨9, 0⟩, by decide, js "b", by decide, rfl⟩
      simp only [List.cons_append, List.nil_append, List.forall_mem_cons]
      exact ⟨hwall 7 (by decide), ⟨hwall 3 (by decide), hremote.wellWritten⟩, trivial, hwall 2 (by decide), by simp⟩)).1
        (js "0000000000000000009-0002-a") (by decide +kernel)
  exact h.1 _ (by decide +kernel)

end EasyDocket
