-- The pulls of an interleaving, one after the other. Between two pulls only the
-- producer acts, and it leaves alone what belongs to the consumer, so the log of
-- the pulls is a chain in which each one starts where the one before it ended.
import EmbeddedAudio.SpscFifo

namespace EmbeddedAudio.Core

open Storage Cursor

/-! ## Chains of pulls -/

/-- The reservoir without what the producer writes. -/
def consumerPart (r : Reservoir) : Reservoir :=
  { r with storage := [], writeCursor := 0, finished := false }

/-- A pull that starts from the consumer's part of `r` with `delivered` behind it. -/
structure PullOf (r : Reservoir) (delivered : List Int32) (p : PullDone) : Prop where
  result : ∃ r' loaded, consumerPart r' = consumerPart r ∧
    loaded.length = (pullTake r' p.finished p.available p.n).toNat * r'.format.numChannels ∧
    p.pulled = pullRest r' p.finished r'.readCursor p.available p.n loaded ∧
    p.delivered = delivered ++ loaded
  /-- A pull that has seen the end of the stream has seen all frames that are left. -/
  rest : p.finished = true →
    p.accepted.length = delivered.length + p.available.toNat * r.format.numChannels
  order : p.delivered <+: p.accepted

def Pulls : Reservoir → List Int32 → List PullDone → Prop
  | _, _, [] => True
  | r, delivered, p :: ps =>
    PullOf r delivered p ∧ Pulls p.pulled.reservoir p.delivered ps

/-- The reservoir after the pulls `ps`. -/
def reservoirAfter (r : Reservoir) (ps : List PullDone) : Reservoir :=
  ps.foldl (fun _ p => p.pulled.reservoir) r

def deliveredAfter (delivered : List Int32) (ps : List PullDone) : List Int32 :=
  ps.foldl (fun _ p => p.delivered) delivered

theorem pulls_append {r : Reservoir} {delivered : List Int32} {before after : List PullDone} :
    Pulls r delivered (before ++ after) ↔ Pulls r delivered before ∧
      Pulls (reservoirAfter r before) (deliveredAfter delivered before) after := by
  induction before generalizing r delivered with
  | nil => exact ⟨fun h => ⟨trivial, h⟩, fun h => h.2⟩
  | cons p ps ih =>
    constructor
    · intro h
      obtain ⟨hps, hafter⟩ := ih.mp h.2
      exact ⟨⟨h.1, hps⟩, hafter⟩
    · intro h
      exact ⟨h.1.1, ih.mpr ⟨h.1.2, h.2⟩⟩

/-- What the consumer's part decides about a pull. -/
theorem consumerPart_eq {r r' : Reservoir} (h : consumerPart r' = consumerPart r) :
    r'.capacity = r.capacity ∧ r'.highWatermark = r.highWatermark ∧ r'.format = r.format ∧
      r'.readCursor = r.readCursor ∧ r'.state = r.state ∧ r'.underruns = r.underruns ∧
      r'.framesRead = r.framesRead ∧ r'.last = r.last := by
  simp only [consumerPart, Reservoir.mk.injEq] at h
  obtain ⟨-, h2, h3, -, -, h6, h7, -, -, h10, h11, h12, h13, -⟩ := h
  exact ⟨h2, h3, h6, h7, h10, h11, h12, h13⟩

theorem reservoirAfter_snoc (r : Reservoir) (ps : List PullDone) (p : PullDone) :
    reservoirAfter r (ps ++ [p]) = p.pulled.reservoir := by
  simp [reservoirAfter, List.foldl_append]

theorem deliveredAfter_snoc (delivered : List Int32) (ps : List PullDone) (p : PullDone) :
    deliveredAfter delivered (ps ++ [p]) = p.delivered := by
  simp [deliveredAfter, List.foldl_append]

theorem pullOf_format {r : Reservoir} {delivered : List Int32} {p : PullDone}
    (h : PullOf r delivered p) : p.pulled.reservoir.format = r.format := by
  obtain ⟨r', loaded, hpart, -, hpulled, -⟩ := h.result
  obtain ⟨-, -, hformat, -⟩ := consumerPart_eq hpart
  obtain ⟨-, -, hkeep, -⟩ := pullRest_shared r' p.finished p.available p.n loaded
  rw [hpulled, hkeep, hformat]

theorem pullOf_delivered {r : Reservoir} {delivered : List Int32} {p : PullDone}
    (h : PullOf r delivered p) : delivered <+: p.delivered := by
  obtain ⟨_, loaded, -, -, -, hdelivered⟩ := h.result
  exact ⟨loaded, hdelivered.symm⟩

theorem pulls_format {r : Reservoir} {delivered : List Int32} {ps : List PullDone}
    (h : Pulls r delivered ps) : (reservoirAfter r ps).format = r.format := by
  induction ps generalizing r delivered with
  | nil => rfl
  | cons p ps ih =>
    calc (reservoirAfter p.pulled.reservoir ps).format
        = p.pulled.reservoir.format := ih h.2
      _ = r.format := pullOf_format h.1

theorem pulls_delivered {r : Reservoir} {delivered : List Int32} {ps : List PullDone}
    (h : Pulls r delivered ps) : delivered <+: deliveredAfter delivered ps := by
  induction ps generalizing r delivered with
  | nil => exact List.prefix_rfl
  | cons p ps ih => exact (pullOf_delivered h.1).trans (ih h.2)

/-- A pull of a chain starts where the pulls before it have ended. -/
theorem pulls_split {r : Reservoir} {delivered : List Int32} {before after : List PullDone}
    {p : PullDone} (h : Pulls r delivered (before ++ p :: after)) :
    PullOf (reservoirAfter r before) (deliveredAfter delivered before) p ∧
      Pulls p.pulled.reservoir p.delivered after := (pulls_append.mp h).2

/-! ## The log of a run -/

/-- What a pull that has loaded the flag knows: the flag stays up, and it was not up in an
earlier pull if this one has found it down. -/
def Saw (s : Spsc) (finished : Bool) : Prop :=
  (finished = true → s.r.finished = true) ∧
    (finished = false → ∀ p ∈ s.pulls, p.finished = false)

def consumerSaw (s : Spsc) : Prop :=
  match s.consumer with
  | .sawFinished _ finished => Saw s finished
  | .sawRead _ finished _ => Saw s finished
  | .copying _ finished _ available _ =>
    Saw s finished ∧ (finished = true → available = s.r.writeCursor - s.r.readCursor)
  | _ => True

/-- A producer that has raised the flag writes no more. -/
def producerEnded (s : Spsc) : Prop :=
  s.r.finished = true → s.producer = .idle ∨ ∃ src frames, s.producer = .called src frames

/-- The log of the pulls since the start with the reservoir `r₀`. -/
structure History (r₀ : Reservoir) (s : Spsc) : Prop where
  chain : Pulls r₀ [] s.pulls
  reservoir : consumerPart s.r = consumerPart (reservoirAfter r₀ s.pulls)
  delivered : s.delivered = deliveredAfter [] s.pulls
  /-- After a pull that has seen the end of the stream all others see it. -/
  later : s.pulls.Pairwise fun p q => p.finished = true → q.finished = true
  ended : ∀ p ∈ s.pulls, p.finished = true → s.r.finished = true ∧ p.accepted = s.accepted
  saw : consumerSaw s
  producer : producerEnded s

section Steps

variable {r₀ : Reservoir} {base : UInt32} {w r : Nat} {s : Spsc}

theorem history_producerStep (h : History r₀ s) : History r₀ (producerStep s) := by
  rcases hp : s.producer with _ | ⟨src, frames⟩ | ⟨src, frames⟩ | ⟨src, frames, write⟩ |
    ⟨src, write, frames, copied⟩
  · rwa [producerStep_idle hp]
  · rw [producerStep_called hp]
    refine { h with producer := ?_ }
    intro hfin
    left
    exact if_pos hfin
  all_goals
    have hopen : s.r.finished = false := by
      by_contra hne
      rcases h.producer (Bool.not_eq_false _ ▸ hne) with hidle | ⟨src', frames', hcalled⟩
      · rw [hidle] at hp
        cases hp
      · rw [hcalled] at hp
        cases hp
    have hended : ∀ s' : Spsc, s'.r.finished = s.r.finished → producerEnded s' := by
      intro s' hsame hfin
      rw [hsame, hopen] at hfin
      cases hfin
  · rw [producerStep_opened hp]
    exact { h with producer := hended _ rfl }
  · rw [producerStep_placed hp]
    exact { h with producer := hended _ rfl }
  · by_cases hmore : copied < frames.toNat * channelsOf s
    · rw [producerStep_store hp hmore]
      exact { h with producer := hended _ rfl }
    · rw [producerStep_publish hp hmore]
      refine { h with ended := ?_, saw := ?_, producer := hended _ rfl }
      · intro p hp hfin
        have hup := (h.ended p hp hfin).1
        rw [hopen] at hup
        cases hup
      · have hsaw := h.saw
        unfold consumerSaw at hsaw ⊢
        rcases hc : s.consumer with _ | n | ⟨n, fin⟩ | ⟨n, fin, read⟩ |
          ⟨n, fin, read, available, loaded⟩
        all_goals rw [hc] at hsaw
        · trivial
        · trivial
        · exact hsaw
        · exact hsaw
        · refine ⟨hsaw.1, ?_⟩
          intro hfin
          have hup := hsaw.1.1 hfin
          rw [hopen] at hup
          cases hup

/-- A pull that returns continues the chain. -/
theorem history_release (hf : Fifo base w r s) (h : History r₀ s) {n read available : UInt32}
    {finished : Bool} {loaded : List Int32}
    (hc : s.consumer = .copying n finished read available loaded)
    (hdone : ¬ loaded.length < (pullTake s.r finished available n).toNat * channelsOf s) :
    History r₀ (consumerStep s) := by
  obtain ⟨rfl, havail, hlen, hpre⟩ := copied_all hf hc hdone
  have hsaw := h.saw
  unfold consumerSaw at hsaw
  rw [hc] at hsaw
  obtain ⟨⟨hup, hdown⟩, hrest⟩ := hsaw
  obtain ⟨-, -, hformat, -, hfin, -, -⟩ := pullRest_shared s.r finished available n loaded
  have hdelivered : s.delivered.length = r * channelsOf s := by
    have hrw : r * channelsOf s ≤ w * channelsOf s := Nat.mul_le_mul_right _ hf.le
    rw [hf.order, List.length_take, hf.accepted, Nat.min_eq_left hrw]
  have hchannels : (reservoirAfter r₀ s.pulls).format.numChannels = channelsOf s := by
    obtain ⟨-, -, hformat, -⟩ := consumerPart_eq h.reservoir
    rw [← hformat]
    rfl
  have hpull : PullOf (reservoirAfter r₀ s.pulls) (deliveredAfter [] s.pulls)
      ⟨n, finished, available, pullRest s.r finished s.r.readCursor available n loaded, s.accepted,
        s.delivered ++ loaded⟩ := by
    refine ⟨⟨s.r, loaded, h.reservoir, hlen, rfl, by rw [← h.delivered]⟩, ?_, ?_⟩
    · intro hfinished
      have hlevel : available.toNat = w - r := by rw [hrest hfinished, toNat_level hf]
      show s.accepted.length = _
      rw [← h.delivered, hdelivered, hchannels, hf.accepted, hlevel, ← Nat.add_mul,
        Nat.add_sub_cancel' hf.le]
    · show s.delivered ++ loaded <+: s.accepted
      rw [hf.order, hpre, ← List.take_add]
      exact List.take_prefix _ _
  rw [release_eq hf hc hdone]
  refine {
    chain := pulls_append.mpr ⟨h.chain, hpull, trivial⟩
    reservoir := by rw [reservoirAfter_snoc]
    delivered := by rw [deliveredAfter_snoc]
    later := ?_
    ended := ?_
    saw := trivial
    producer := ?_ }
  · refine List.pairwise_append.mpr ⟨h.later, List.pairwise_singleton _ _, ?_⟩
    intro p hp q hq hfinished
    obtain rfl := List.mem_singleton.mp hq
    by_contra hne
    have hearlier := hdown (Bool.eq_false_of_not_eq_true hne) p hp
    rw [hfinished] at hearlier
    cases hearlier
  · intro p hp hfinished
    show (pullRest s.r finished s.r.readCursor available n loaded).reservoir.finished = true ∧ _
    rw [hfin]
    rcases List.mem_append.mp hp with hold | hnew
    · exact h.ended p hold hfinished
    · obtain rfl := List.mem_singleton.mp hnew
      exact ⟨hup hfinished, rfl⟩
  · intro hfinished
    apply h.producer
    rwa [← hfin]

theorem history_consumerStep (hf : Fifo base w r s) (h : History r₀ s) :
    History r₀ (consumerStep s) := by
  have hsaw := h.saw
  unfold consumerSaw at hsaw
  have hnow : Saw s s.r.finished := by
    refine ⟨id, ?_⟩
    intro hdown p hp
    by_contra hne
    have hup := (h.ended p hp (Bool.not_eq_false _ ▸ hne)).1
    rw [hdown] at hup
    cases hup
  rcases hc : s.consumer with _ | n | ⟨n, fin⟩ | ⟨n, fin, read⟩ | ⟨n, fin, read, available, loaded⟩
  all_goals rw [hc] at hsaw
  · rwa [consumerStep_idle hc]
  · rw [consumerStep_called hc]
    exact { h with saw := hnow }
  · rw [consumerStep_sawFinished hc]
    exact { h with saw := hsaw }
  · have hread : read = s.r.readCursor := by
      have hholds := hf.consumer
      unfold consumerHolds at hholds
      rwa [hc] at hholds
    rw [consumerStep_sawRead hc]
    refine { h with saw := ⟨hsaw, ?_⟩ }
    intro _
    rw [hread]
  · by_cases hmore : loaded.length < (pullTake s.r fin available n).toNat * channelsOf s
    · rw [consumerStep_load hc hmore]
      exact { h with saw := hsaw }
    · exact history_release hf h hc hmore

theorem history_step (hf : Fifo base w r s) (h : History r₀ s) (action : Action) :
    History r₀ (spscStep s action) := by
  cases action with
  | write src frames =>
    simp only [spscStep]
    split
    · refine { h with producer := ?_ }
      intro _
      exact .inr ⟨src, frames, rfl⟩
    · exact h
  | finish =>
    simp only [spscStep]
    split
    · rename_i hidle
      refine { h with ended := ?_, saw := ?_, producer := fun _ => .inl hidle }
      · intro p hp hfin
        exact ⟨rfl, (h.ended p hp hfin).2⟩
      · have hsaw := h.saw
        unfold consumerSaw at hsaw ⊢
        rcases hc : s.consumer with _ | n | ⟨n, fin⟩ | ⟨n, fin, read⟩ |
          ⟨n, fin, read, available, loaded⟩
        all_goals rw [hc] at hsaw
        · trivial
        · trivial
        · exact ⟨fun _ => rfl, hsaw.2⟩
        · exact ⟨fun _ => rfl, hsaw.2⟩
        · exact ⟨⟨fun _ => rfl, hsaw.1.2⟩, hsaw.2⟩
    · exact h
  | pull buf =>
    simp only [spscStep]
    split
    · exact { h with saw := trivial }
    · exact h
  | producer => exact history_producerStep h
  | consumer => exact history_consumerStep hf h

end Steps

/-! ## Runs -/

theorem history_run {r₀ : Reservoir} {base : UInt32} {w r : Nat} {s : Spsc}
    (hf : Fifo base w r s) (h : History r₀ s) (actions : List Action) :
    History r₀ (spscRun s actions) := by
  induction actions generalizing w r s with
  | nil => exact h
  | cons action actions ih =>
    obtain ⟨w', r', hstep⟩ := fifo_step hf action
    exact ih hstep (history_step hf h action)

theorem history_format {r₀ : Reservoir} {s : Spsc} (h : History r₀ s) : s.r.format = r₀.format := by
  obtain ⟨-, -, hformat, -⟩ := consumerPart_eq h.reservoir
  rw [hformat, pulls_format h.chain]

theorem history_start (r : Reservoir) (base : UInt32) :
    History { r with readCursor := base, writeCursor := base } (spscStart r base) where
  chain := trivial
  reservoir := rfl
  delivered := rfl
  later := List.Pairwise.nil
  ended := by
    intro p hp
    cases hp
  saw := trivial
  producer := fun _ => .inl rfl

end EmbeddedAudio.Core
