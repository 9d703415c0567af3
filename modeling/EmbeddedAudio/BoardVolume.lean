-- The master volume of the board output (board_output.c): a controller publishes
-- two gains behind a counter, and the audio worker takes a pair of them without a
-- lock. Each load and each store of an atomic is a step of its own.
import EmbeddedAudio.Results
import Mathlib.Data.List.Basic
import Mathlib.Data.List.Induction
import Mathlib.Tactic.Ring

namespace EmbeddedAudio.Board

/-- The gains of the left and of the right channel. -/
abbrev Gains := Int32 × Int32

/-- Where the controller is inside `set_volume`: what it has done last. -/
inductive Setter where
  | idle
  | counted (gains : Gains)
  | storedLeft (gains : Gains)
  | storedRight (gains : Gains)
  deriving DecidableEq, Repr

/-- Where the worker is inside `apply_volume`: what it has loaded. -/
inductive Applier where
  | idle
  | sawSequence (before : UInt32)
  | sawLeft (before left : UInt32)
  | sawRight (before left right : UInt32)
  deriving DecidableEq, Repr

/-- The gains of the output. The last three fields are what is written down of a run: the pair
of each call of `set_volume` so far behind the initial one, the pairs that were applied, and how
many calls have begun since the worker loaded the counter last. -/
structure Volume where
  gainSequence : UInt32
  gainLeft : UInt32
  gainRight : UInt32
  gain : Gains
  setter : Setter
  applier : Applier
  settings : List Gains
  applied : List Gains
  during : Nat
  deriving DecidableEq, Repr

inductive VolumeAction where
  | set (gains : Gains)
  | setter
  | apply
  | applier
  deriving DecidableEq, Repr

/-- `set_volume`, up to the first addition. -/
def setVolume (s : Volume) (gains : Gains) : Volume :=
  if s.setter ≠ .idle then s
  else
    { s with
      gainSequence := s.gainSequence + 1, setter := .counted gains
      settings := s.settings ++ [gains]
      during := if s.applier = .idle then s.during else s.during + 1 }

/-- One more step of `set_volume`. -/
def setterStep (s : Volume) : Volume :=
  match s.setter with
  | .idle => s
  | .counted gains => { s with gainLeft := gains.1.toUInt32, setter := .storedLeft gains }
  | .storedLeft gains => { s with gainRight := gains.2.toUInt32, setter := .storedRight gains }
  | .storedRight _ => { s with gainSequence := s.gainSequence + 1, setter := .idle }

/-- `apply_volume`, up to the first load. An odd counter says that a pair is being stored. -/
def applyVolume (s : Volume) : Volume :=
  if s.applier ≠ .idle ∨ s.gainSequence &&& 1 ≠ 0 then s
  else { s with applier := .sawSequence s.gainSequence, during := 0 }

/-- One more step of `apply_volume`. -/
def applierStep (s : Volume) : Volume :=
  match s.applier with
  | .idle => s
  | .sawSequence before => { s with applier := .sawLeft before s.gainLeft }
  | .sawLeft before left => { s with applier := .sawRight before left s.gainRight }
  | .sawRight before left right =>
    if before ≠ s.gainSequence then { s with applier := .idle }
    else
      { s with
        gain := (left.toInt32, right.toInt32), applier := .idle
        applied := s.applied ++ [(left.toInt32, right.toInt32)] }

def volumeStep (s : Volume) : VolumeAction → Volume
  | .set gains => setVolume s gains
  | .setter => setterStep s
  | .apply => applyVolume s
  | .applier => applierStep s

def volumeRun (s : Volume) (actions : List VolumeAction) : Volume := actions.foldl volumeStep s

/-- The gains of the program before any call. -/
def fullVolume : Volume where
  gainSequence := 0
  gainLeft := 0x7FFFFFFF
  gainRight := 0x7FFFFFFF
  gain := (0x7FFFFFFF, 0x7FFFFFFF)
  setter := .idle
  applier := .idle
  settings := [(0x7FFFFFFF, 0x7FFFFFFF)]
  applied := []
  during := 0

/-! ## The pairs that are applied -/

/-- Every pair that was applied is that of one call, or the initial one, and none is of an older
call than one before it. -/
structure Consistent (s : Volume) : Prop where
  order : ∃ calls : List Nat, calls.Pairwise (· ≤ ·) ∧
    s.applied.map some = calls.map (s.settings[·]?)
  gain : (fullVolume.gain :: s.applied).getLast? = some s.gain

/-! ## What the counter says -/

/-- The last pair that a call has begun to publish. -/
def latest (s : Volume) : Option Gains := s.settings.getLast?

/-- How often the counter was increased. -/
def additions (s : Volume) : Nat :=
  match s.setter with
  | .idle => 2 * (s.settings.length - 1)
  | _ => 2 * (s.settings.length - 1) - 1

/-- What the controller has stored so far. -/
def setterHolds (s : Volume) : Prop :=
  match s.setter with
  | .idle => latest s = some (s.gainLeft.toInt32, s.gainRight.toInt32)
  | .counted gains => latest s = some gains
  | .storedLeft gains => latest s = some gains ∧ s.gainLeft.toInt32 = gains.1
  | .storedRight gains => latest s = some (s.gainLeft.toInt32, s.gainRight.toInt32) ∧
      latest s = some gains

/-- What the worker has loaded: the counter as it was when `during` calls had not begun, and the
gains of the last call if none has begun since. -/
def applierHolds (s : Volume) : Prop :=
  match s.applier with
  | .idle => True
  | .sawSequence before => before = UInt32.ofNat (2 * (s.settings.length - 1 - s.during))
  | .sawLeft before left => before = UInt32.ofNat (2 * (s.settings.length - 1 - s.during)) ∧
      (s.during = 0 → left = s.gainLeft)
  | .sawRight before left right =>
      before = UInt32.ofNat (2 * (s.settings.length - 1 - s.during)) ∧
      (s.during = 0 → left = s.gainLeft ∧ right = s.gainRight)

structure Published (s : Volume) : Prop where
  setter : setterHolds s
  begun : s.setter ≠ .idle → 2 ≤ s.settings.length
  sequence : s.gainSequence = UInt32.ofNat (additions s)
  applier : applierHolds s
  during : s.applier ≠ .idle → s.during + 1 ≤ s.settings.length
  still : s.applier ≠ .idle → s.during = 0 → s.setter = .idle

section Steps

variable {s : Volume}

theorem published_set (h : Published s) (gains : Gains) : Published (setVolume s gains) := by
  unfold setVolume
  split
  · exact h
  · rename_i hidle
    rw [not_not] at hidle
    have hsequence := h.sequence
    have hpos : 0 < s.settings.length := by
      have hlatest := h.setter
      unfold setterHolds latest at hlatest
      rw [hidle] at hlatest
      exact List.length_pos_of_mem (List.mem_of_getLast? hlatest)
    unfold additions at hsequence
    simp only [hidle] at hsequence
    refine ⟨?_, ?_, ?_, ?_, ?_, ?_⟩
    · simp [setterHolds, latest]
    · intro _
      simp only [List.length_append, List.length_singleton]
      omega
    · simp only [additions, List.length_append, List.length_singleton, hsequence]
      rw [show 2 * (s.settings.length + 1 - 1) - 1 = 2 * (s.settings.length - 1) + 1 by omega,
        UInt32.ofNat_add]
      rfl
    · have happlier := h.applier
      have hsame : s.settings.length + 1 - 1 - (s.during + 1) =
          s.settings.length - 1 - s.during := by omega
      unfold applierHolds at happlier ⊢
      simp only [List.length_append, List.length_singleton]
      cases ha : s.applier with
      | idle => trivial
      | sawSequence before =>
        rw [ha] at happlier
        simp only [reduceCtorEq, if_false, hsame]
        exact happlier
      | sawLeft before left =>
        rw [ha] at happlier
        simp only [reduceCtorEq, if_false, hsame]
        exact ⟨happlier.1, nofun⟩
      | sawRight before left right =>
        rw [ha] at happlier
        simp only [reduceCtorEq, if_false, hsame]
        exact ⟨happlier.1, nofun⟩
    · intro ha
      have hduring := h.during ha
      simp only [List.length_append, List.length_singleton]
      rw [if_neg ha]
      omega
    · intro ha hzero
      simp only at hzero
      rw [if_neg ha] at hzero
      cases hzero

/-- What is stored does not matter to a worker that has seen a call begin. -/
theorem applier_stores (h : applierHolds s) (hseen : s.applier ≠ .idle → s.during ≠ 0)
    (left right : UInt32) (setter : Setter) :
    applierHolds { s with gainLeft := left, gainRight := right, setter := setter } := by
  unfold applierHolds at h ⊢
  cases ha : s.applier with
  | idle => trivial
  | sawSequence before =>
    rw [ha] at h
    exact h
  | sawLeft before loaded =>
    rw [ha] at h hseen
    exact ⟨h.1, fun hzero => absurd hzero (hseen nofun)⟩
  | sawRight before loaded loaded' =>
    rw [ha] at h hseen
    exact ⟨h.1, fun hzero => absurd hzero (hseen nofun)⟩

/-- A controller that is about to store a gain has been counted. -/
theorem Published.seen (h : Published s) (hbusy : s.setter ≠ .idle) :
    s.applier ≠ .idle → s.during ≠ 0 :=
  fun ha hzero => hbusy (h.still ha hzero)

theorem published_setter (h : Published s) : Published (setterStep s) := by
  have hsetter := h.setter
  have hsequence := h.sequence
  unfold setterHolds at hsetter
  unfold additions at hsequence
  unfold setterStep
  cases hs : s.setter with
  | idle => exact h
  | counted gains =>
    have hseen := h.seen (by simp [hs])
    rw [hs] at hsetter hsequence
    refine ⟨⟨hsetter, by simp⟩, fun _ => h.begun (by simp [hs]), hsequence, ?_, h.during, ?_⟩
    · exact applier_stores h.applier hseen _ _ _
    · exact fun ha hzero => absurd hzero (hseen ha)
  | storedLeft gains =>
    have hseen := h.seen (by simp [hs])
    rw [hs] at hsetter hsequence
    obtain ⟨hlatest, hleft⟩ := hsetter
    refine ⟨⟨?_, hlatest⟩, fun _ => h.begun (by simp [hs]), hsequence, ?_, h.during, ?_⟩
    · simp only [latest, Int32.toInt32_toUInt32, hleft] at hlatest ⊢
      exact hlatest
    · exact applier_stores h.applier hseen _ _ _
    · exact fun ha hzero => absurd hzero (hseen ha)
  | storedRight gains =>
    have hbegun := h.begun (by simp [hs])
    rw [hs] at hsetter hsequence
    refine ⟨hsetter.1, nofun, ?_, h.applier, h.during, fun _ _ => rfl⟩
    simp only [additions]
    simp only at hsequence
    rw [hsequence, show (1 : UInt32) = UInt32.ofNat 1 from rfl, ← UInt32.ofNat_add]
    congr 1
    omega

/-- An even counter says that no pair is being stored. -/
theorem Published.even (h : Published s) (heven : s.gainSequence &&& 1 = 0) :
    s.setter = .idle := by
  by_contra hbusy
  have hbegun := h.begun hbusy
  have hadditions : additions s = 2 * (s.settings.length - 1) - 1 := by
    unfold additions
    split
    · contradiction
    · rfl
  have hparity := congrArg UInt32.toNat heven
  rw [h.sequence, hadditions, UInt32.toNat_and, UInt32.toNat_ofNat'] at hparity
  rw [show (1 : UInt32).toNat = 1 from rfl, Nat.and_one_is_mod] at hparity
  rw [show (0 : UInt32).toNat = 0 from rfl] at hparity
  omega

theorem published_apply (h : Published s) : Published (applyVolume s) := by
  unfold applyVolume
  split
  · exact h
  · rename_i hload
    rw [not_or, not_not, not_not] at hload
    have hidle := h.even hload.2
    have hsequence := h.sequence
    have hsetter := h.setter
    refine ⟨h.setter, h.begun, h.sequence, ?_, ?_, fun _ _ => hidle⟩
    · unfold additions at hsequence
      simp only [hidle] at hsequence
      exact hsequence
    · intro _
      unfold setterHolds latest at hsetter
      rw [hidle] at hsetter
      exact List.length_pos_of_mem (List.mem_of_getLast? hsetter)

/-- A worker that finds the counter as it was has loaded the last pair, if it has not slept through
2^31 calls. -/
theorem loaded_latest (h : Published s) (hbound : s.during < 2 ^ 31) {before left right : UInt32}
    (ha : s.applier = .sawRight before left right) (hsame : before = s.gainSequence) :
    latest s = some (left.toInt32, right.toInt32) := by
  have happlier := h.applier
  have hduring := h.during (by simp [ha])
  have hsequence := h.sequence
  have hsetter := h.setter
  unfold applierHolds at happlier
  rw [ha] at happlier
  obtain ⟨hbefore, hloaded⟩ := happlier
  have hcount : (2 * (s.settings.length - 1 - s.during)) % 2 ^ 32 = additions s % 2 ^ 32 := by
    have hnat := congrArg UInt32.toNat (hbefore.symm.trans (hsame.trans hsequence))
    simpa only [UInt32.toNat_ofNat'] using hnat
  have hzero : s.during = 0 := by
    unfold additions at hcount
    split at hcount
    · omega
    · rename_i hbusy
      have hseen := h.seen hbusy (by simp [ha])
      omega
  have hidle := h.still (by simp [ha]) hzero
  obtain ⟨rfl, rfl⟩ := hloaded hzero
  unfold setterHolds at hsetter
  rw [hidle] at hsetter
  exact hsetter

theorem published_applier (h : Published s) : Published (applierStep s) := by
  have happlier := h.applier
  unfold applierHolds at happlier
  unfold applierStep
  cases ha : s.applier with
  | idle => exact h
  | sawSequence before =>
    rw [ha] at happlier
    have hduring := h.during (by simp [ha])
    have hstill := h.still (by simp [ha])
    exact ⟨h.setter, h.begun, h.sequence, ⟨happlier, fun _ => rfl⟩, fun _ => hduring,
      fun _ => hstill⟩
  | sawLeft before left =>
    rw [ha] at happlier
    have hduring := h.during (by simp [ha])
    have hstill := h.still (by simp [ha])
    exact ⟨h.setter, h.begun, h.sequence, ⟨happlier.1, fun hzero => ⟨happlier.2 hzero, rfl⟩⟩,
      fun _ => hduring, fun _ => hstill⟩
  | sawRight before left right =>
    simp only
    split
    · exact ⟨h.setter, h.begun, h.sequence, trivial, nofun, nofun⟩
    · exact ⟨h.setter, h.begun, h.sequence, trivial, nofun, nofun⟩

theorem published_step (h : Published s) (action : VolumeAction) :
    Published (volumeStep s action) := by
  cases action with
  | set gains => exact published_set h gains
  | setter => exact published_setter h
  | apply => exact published_apply h
  | applier => exact published_applier h

/-! ## Runs -/

/-- The calls whose pairs were applied, in order. -/
structure Ordered (s : Volume) (calls : List Nat) : Prop where
  sorted : calls.Pairwise (· ≤ ·)
  pairs : s.applied.map some = calls.map (s.settings[·]?)
  known : ∀ k ∈ calls, k < s.settings.length
  gain : (fullVolume.gain :: s.applied).getLast? = some s.gain

theorem Ordered.consistent {calls : List Nat} (h : Ordered s calls) : Consistent s :=
  ⟨⟨calls, h.sorted, h.pairs⟩, h.gain⟩

theorem ordered_set {calls : List Nat} (h : Ordered s calls) (gains : Gains) :
    Ordered (setVolume s gains) calls := by
  unfold setVolume
  split
  · exact h
  · refine ⟨h.sorted, ?_, ?_, h.gain⟩
    · rw [h.pairs]
      apply List.map_congr_left
      intro k hk
      exact (List.getElem?_append_left (h.known k hk)).symm
    · intro k hk
      rw [List.length_append]
      exact Nat.lt_add_right _ (h.known k hk)

/-- A pair that is applied is the last one, so it is of no older call. -/
theorem ordered_applier (hp : Published s) (hbound : s.during < 2 ^ 31) {calls : List Nat}
    (h : Ordered s calls) : ∃ calls', Ordered (applierStep s) calls' := by
  unfold applierStep
  cases ha : s.applier with
  | idle => exact ⟨calls, h⟩
  | sawSequence | sawLeft => exact ⟨calls, h.sorted, h.pairs, h.known, h.gain⟩
  | sawRight before left right =>
    simp only
    split
    · exact ⟨calls, h.sorted, h.pairs, h.known, h.gain⟩
    · rename_i hsame
      rw [not_not] at hsame
      have hlatest := loaded_latest hp hbound ha hsame
      have hpos : 0 < s.settings.length := List.length_pos_of_mem (List.mem_of_getLast? hlatest)
      refine ⟨calls ++ [s.settings.length - 1], ?_, ?_, ?_, ?_⟩
      · refine List.pairwise_append.mpr ⟨h.sorted, List.pairwise_singleton _ _, ?_⟩
        intro k hk last hlast
        have hknown := h.known k hk
        rw [List.mem_singleton.mp hlast]
        omega
      · rw [List.map_append, List.map_append, h.pairs]
        unfold latest at hlatest
        rw [List.getLast?_eq_getElem?] at hlatest
        simp only [List.map_cons, List.map_nil, hlatest]
      · intro k hk
        rcases List.mem_append.mp hk with hold | hnew
        · exact h.known k hold
        · rw [List.mem_singleton.mp hnew]
          exact Nat.sub_lt hpos Nat.one_pos
      · rw [← List.cons_append]
        exact List.getLast?_concat

theorem ordered_step (hp : Published s) (hbound : s.during < 2 ^ 31) {calls : List Nat}
    (h : Ordered s calls) (action : VolumeAction) :
    ∃ calls', Ordered (volumeStep s action) calls' := by
  cases action with
  | set gains => exact ⟨calls, ordered_set h gains⟩
  | applier => exact ordered_applier hp hbound h
  | setter =>
    refine ⟨calls, ?_⟩
    simp only [volumeStep, setterStep]
    split
    · exact h
    · exact ⟨h.sorted, h.pairs, h.known, h.gain⟩
    · exact ⟨h.sorted, h.pairs, h.known, h.gain⟩
    · exact ⟨h.sorted, h.pairs, h.known, h.gain⟩
  | apply =>
    refine ⟨calls, ?_⟩
    simp only [volumeStep, applyVolume]
    split
    · exact h
    · exact ⟨h.sorted, h.pairs, h.known, h.gain⟩

end Steps

theorem published_full : Published fullVolume :=
  ⟨rfl, nofun, rfl, trivial, nofun, nofun⟩

/-- In every interleaving, with fewer than 2^31 calls of `set_volume` during one of
`apply_volume`. -/
theorem volume_consistent (actions : List VolumeAction)
    (hbound : ∀ before, before <+: actions → (volumeRun fullVolume before).during < 2 ^ 31) :
    Consistent (volumeRun fullVolume actions) := by
  have hrun : Published (volumeRun fullVolume actions) ∧
      ∃ calls, Ordered (volumeRun fullVolume actions) calls := by
    induction actions using List.reverseRecOn with
    | nil => exact ⟨published_full, [], .nil, rfl, by simp, rfl⟩
    | append_singleton actions action ih =>
      obtain ⟨hp, calls, ho⟩ := ih fun before hb => hbound before (hb.trans (List.prefix_append _ _))
      have hstep : volumeRun fullVolume (actions ++ [action]) =
          volumeStep (volumeRun fullVolume actions) action := by
        simp [volumeRun]
      rw [hstep]
      exact ⟨published_step hp action,
        ordered_step hp (hbound actions (List.prefix_append _ _)) ho action⟩
  obtain ⟨-, calls, ho⟩ := hrun
  exact ho.consistent

/-- A run of so few steps has few calls. -/
theorem during_run (s : Volume) (actions : List VolumeAction) :
    (volumeRun s actions).during ≤ s.during + actions.length := by
  induction actions generalizing s with
  | nil => exact Nat.le_refl _
  | cons action actions ih =>
    have hstep : (volumeStep s action).during ≤ s.during + 1 := by
      cases action with
      | set gains =>
        simp only [volumeStep, setVolume]
        split
        · omega
        · simp only
          split
          · omega
          · omega
      | apply =>
        simp only [volumeStep, applyVolume]
        split
        · omega
        · exact Nat.zero_le _
      | setter =>
        simp only [volumeStep, setterStep]
        split <;> exact Nat.le_succ _
      | applier =>
        simp only [volumeStep, applierStep]
        split
        · exact Nat.le_succ _
        · exact Nat.le_succ _
        · exact Nat.le_succ _
        · split <;> exact Nat.le_succ _
    apply Nat.le_trans (ih _)
    rw [List.length_cons]
    omega

/-- A call that comes between the loads of the worker, and then one that it applies. -/
def tornActions : List VolumeAction :=
  [.set (5, 6), .setter, .setter, .setter, .apply, .applier, .set (7, 8), .setter, .setter,
    .applier, .setter, .applier, .apply, .applier, .applier, .applier]

theorem volume_consistent_torn : Consistent (volumeRun fullVolume tornActions) ∧
    (volumeRun fullVolume tornActions).applied = [(7, 8)] := by
  refine ⟨volume_consistent tornActions ?_, by decide⟩
  intro before hb
  have hduring := during_run fullVolume before
  have hlength : before.length ≤ 16 := hb.length_le
  have hzero : fullVolume.during = 0 := rfl
  omega

end EmbeddedAudio.Board
