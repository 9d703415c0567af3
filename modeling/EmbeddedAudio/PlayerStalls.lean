-- What a decoder that waits for room has left in the reservoir, whatever the pulls
-- do at that time: enough for a pull, or the token is there or on its way.
import EmbeddedAudio.PlayerStream

namespace EmbeddedAudio.Playback

open EmbeddedAudio.Core Storage Cursor

variable {σ : Type}

/-! ## What a wait leaves behind -/

/-- The frames in the ring. -/
def level (s : Spsc) : Nat := (s.r.writeCursor - s.r.readCursor).toNat

/-- A consumer that still prebuffers finds all that it waits for. -/
def Primed (s : Spsc) : Prop :=
  s.r.state = .prebuffering → s.r.backpressureHigh.toNat ≤ level s

/-- The token is there or on its way, or the ring is not low. -/
def Awake (x : Player σ) : Prop :=
  x.wake = true ∨ (∃ owned pulled, x.owner = .waking owned pulled ∧ pulled.wake = true) ∨
    x.spsc.r.backpressureLow.toNat ≤ level x.spsc

def decoderStalls (x : Player σ) : Prop :=
  match x.decoder with
  | .hold => Primed x.spsc
  | .holdQuit | .holdTake | .writeTake _ _ _ => Primed x.spsc ∧ Awake x
  | .writing _ _ _ => ∀ src write copied, x.spsc.producer = .copying src write 0 copied →
      Primed x.spsc ∧ Awake x
  | _ => True

/-- A pull under way asks for `n` frames. -/
def Asks (n : UInt32) : Consumer → Prop
  | .idle => True
  | .called m => m = n
  | .sawFinished m _ => m = n
  | .sawRead m _ _ => m = n
  | .copying m _ _ _ _ => m = n

/-- What holds of the waits of a player. -/
structure Stalls (x : Player σ) : Prop where
  decoder : decoderStalls x
  drained : Live x → x.spsc.r.state = .drained → x.spsc.r.finished = true
  asks : Asks x.pipeline.blockFrames x.spsc.consumer

/-! ## The end of a pull -/

section Pull

variable (r : Reservoir) (read available n : UInt32) (loaded : List Int32)

/-- A pull that has not seen the end wakes the producer of a ring that it leaves low. -/
theorem pullRest_wake : (pullRest r false read available n loaded).wake =
    (decide (available - pullTake r false available n < r.backpressureLow) && r.wakeProducer) := by
  unfold pullRest
  simp only [Bool.false_eq_true, if_false]
  split
  · split
    · rfl
    · rfl
  · rename_i hstate
    have hzero : pullTake r false available n = 0 := by
      unfold pullTake
      rw [if_neg (by simp [hstate])]
    rw [hzero, UInt32.sub_zero]

theorem pullState_cases :
    pullState r available n = .streaming ∨ pullState r available n = r.state := by
  unfold pullState
  simp only
  split
  · exact .inl rfl
  · split
    · exact .inl rfl
    · exact .inr rfl

/-- A consumer that prebuffers after a pull has taken nothing, and has not started before it. -/
theorem pullRest_prebuffering
    (h : (pullRest r false read available n loaded).reservoir.state = .prebuffering) :
    r.state = .prebuffering ∧ pullTake r false available n = 0 := by
  unfold pullRest at h
  simp only [Bool.false_eq_true, if_false] at h
  split at h
  · split at h
    · cases h
    · cases h
  · rename_i hstate
    have hsame : pullState r available n = .prebuffering := h
    refine ⟨?_, ?_⟩
    · exact ((pullState_cases r available n).resolve_left hstate).symm.trans hsame
    · unfold pullTake
      rw [if_neg (by simp [hstate])]

/-- Only a pull that has seen the end drains the reservoir. -/
theorem pullRest_drained (finished : Bool)
    (h : (pullRest r finished read available n loaded).reservoir.state = .drained) :
    finished = true ∨ r.state = .drained := by
  cases finished with
  | true => exact .inl rfl
  | false =>
    unfold pullRest at h
    simp only [Bool.false_eq_true, if_false] at h
    split at h
    · split at h
      · cases h
      · cases h
    · rename_i hstate
      have hsame : pullState r available n = .drained := h
      exact .inr (((pullState_cases r available n).resolve_left hstate).symm.trans hsame)

/-- A pull that finds frames takes some, if the consumer may start. -/
theorem pullTake_pos (finished : Bool) (hn : 0 < n.toNat) (ha : 0 < available.toNat)
    (hdrained : r.state ≠ .drained)
    (hready : r.state = .prebuffering → r.highWatermark ≤ available ∧ n ≤ available) :
    0 < (pullTake r finished available n).toNat := by
  have hstart : pullState r available n = .streaming := by
    unfold pullState
    cases hs : r.state with
    | prebuffering => simp [hready hs]
    | streaming => simp
    | underrun => simp
    | drained => exact absurd hs hdrained
  unfold pullTake
  rw [if_pos (.inr hstart)]
  split
  · exact ha
  · exact hn

end Pull

/-! ## The decoder -/

section Decoder

variable {src : Source σ} {x x' : Player σ}

/-- A decoder that has come through the gate is at a reservoir that was reset for it. -/
theorem decoder_live (hs : Sound src x) (hin : x.decoder.inside = true) : Live x := by
  refine ⟨?_, .inl (hs.control.open hin)⟩
  by_contra hoff
  rw [(hs.control.initialized (Bool.eq_false_of_not_eq_true hoff)).1] at hin
  cases hin

theorem level_eq {s : Spsc} (h : Linked s) : (reservoirLevel s.r).toNat = level s := by
  obtain ⟨w, r, hf⟩ := h.queue
  rw [(spscSafe_of_fifo hf).level.2.1]
  rfl

/-- The producer only fills the ring. -/
theorem level_producerStep {s : Spsc} (h : Linked s) : level s ≤ level (producerStep s) := by
  obtain ⟨w, r, hf⟩ := h.queue
  unfold level
  rw [toNat_level hf]
  rcases fifo_producerStep hf with hstep | ⟨n, hstep⟩
  · rw [toNat_level hstep]
  · rw [toNat_level hstep]
    omega

theorem primed_producerStep {s : Spsc} (h : Linked s) (hp : Primed s) : Primed (producerStep s) := by
  have hlevel := level_producerStep h
  unfold Primed at hp ⊢
  intro hstate
  have hsame : (producerStep s).r.state = s.r.state := by rw [producerStep_frame]
  have hhigh : (producerStep s).r.backpressureHigh = s.r.backpressureHigh := by
    rw [producerStep_frame]
  rw [hhigh]
  exact Nat.le_trans (hp (hsame ▸ hstate)) hlevel

/-- A write that finds no room finds a full ring. -/
theorem full_room {s : Spsc} (h : Linked s) {left : UInt32} (hleft : 0 < left.toNat)
    (hnone : writeFrames s.r left s.r.writeCursor s.r.readCursor = 0) :
    s.r.capacity.toNat ≤ level s := by
  obtain ⟨w, r, hf⟩ := h.queue
  have hlevel := toNat_level hf
  have hbound := hf.level
  have hsub : (s.r.capacity - (s.r.writeCursor - s.r.readCursor)).toNat =
      s.r.capacity.toNat - (w - r) := by
    rw [UInt32.toNat_sub_of_le _ _ (UInt32.le_iff_toNat_le.mpr (by omega)), hlevel]
  unfold level
  unfold writeFrames at hnone
  simp only at hnone
  split at hnone
  · rw [hnone] at hsub
    have hzero : (0 : UInt32).toNat = 0 := rfl
    omega
  · rw [hnone] at hleft
    cases hleft

/-- A step inside a write that turns out to accept nothing. -/
theorem writing_stalls (hs : Sound src x) (hlive : Live x) {rest : List Int32} {left : UInt32}
    (hleft : 0 < left.toNat) (hwrites : Writes x.spsc rest left) :
    ∀ source write copied, (producerStep x.spsc).producer = .copying source write 0 copied →
      Primed (producerStep x.spsc) ∧ Awake { x with spsc := producerStep x.spsc } := by
  intro source write copied hp'
  have hlinked := hs.linked hlive
  have hfull : x.spsc.r.capacity.toNat ≤ level x.spsc → Primed (producerStep x.spsc) ∧
      Awake { x with spsc := producerStep x.spsc } := by
    intro hcapacity
    have hlevel := level_producerStep hlinked
    have hhigh := hs.fits.high
    have hmarks := hs.fits.marks
    refine ⟨primed_producerStep hlinked (fun _ => Nat.le_trans hhigh hcapacity), .inr (.inr ?_)⟩
    have hlow : (producerStep x.spsc).r.backpressureLow = x.spsc.r.backpressureLow := by
      rw [producerStep_frame]
    show (producerStep x.spsc).r.backpressureLow.toNat ≤ level (producerStep x.spsc)
    rw [hlow]
    omega
  obtain ⟨w, r, hf⟩ := hlinked.queue
  have hholds := hf.producer
  unfold Writes at hwrites
  unfold producerHolds at hholds
  rcases hp : x.spsc.producer with _ | ⟨src, frames⟩ | ⟨src, frames⟩ | ⟨src, frames, start⟩ |
    ⟨src, start, frames, done⟩
  all_goals rw [hp] at hwrites hholds
  · cases hwrites
  · rw [producerStep_called hp] at hp'
    simp only at hp'
    split at hp'
    · cases hp'
    · cases hp'
  · rw [producerStep_opened hp] at hp'
    cases hp'
  · rw [producerStep_placed hp] at hp'
    injection hp' with _ _ hzero _
    obtain ⟨-, rfl⟩ := hwrites
    obtain ⟨-, rfl⟩ := hholds
    exact hfull (full_room hlinked hleft hzero)
  · by_cases hmore : done < frames.toNat * channelsOf x.spsc
    · rw [producerStep_store hp hmore] at hp'
      injection hp' with _ _ hzero _
      rw [hzero] at hmore
      simp at hmore
    · rw [producerStep_publish hp hmore] at hp'
      cases hp'

theorem awake_producerStep (hlinked : Linked x.spsc) (h : Awake x) (d : Decoder) :
    Awake { x with spsc := producerStep x.spsc, decoder := d } := by
  rcases h with htoken | hwaking | hlow
  · exact .inl htoken
  · exact .inr (.inl hwaking)
  · have hlevel := level_producerStep hlinked
    have hsame : (producerStep x.spsc).r.backpressureLow = x.spsc.r.backpressureLow := by
      rw [producerStep_frame]
    refine .inr (.inr ?_)
    show (producerStep x.spsc).r.backpressureLow.toNat ≤ level (producerStep x.spsc)
    rw [hsame]
    exact Nat.le_trans hlow hlevel

/-- A write that has accepted nothing was a copy of no frames. -/
theorem writeReturns_zero {s : Spsc} {rest : List Int32} {left : UInt32} (hwrites : Writes s rest left)
    (hopen : s.r.finished = false) (hidle : (producerStep s).producer = .idle)
    (hzero : writeReturns s = 0) :
    ∃ source write copied, s.producer = .copying source write 0 copied := by
  unfold Writes at hwrites
  unfold writeReturns at hzero
  rcases hp : s.producer with _ | ⟨src, frames⟩ | ⟨src, frames⟩ | ⟨src, frames, write⟩ |
    ⟨src, write, frames, copied⟩
  all_goals rw [hp] at hwrites hzero
  · cases hwrites
  · rw [producerStep_called hp] at hidle
    simp [hopen] at hidle
  · rw [producerStep_opened hp] at hidle
    cases hidle
  · rw [producerStep_placed hp] at hidle
    cases hidle
  · obtain rfl : frames = 0 := hzero
    exact ⟨_, _, _, rfl⟩

theorem goes_stalls {d : Decoder} (hg : Goes x d) (hs : Sound src x) (h : decoderStalls x) :
    decoderStalls { x with decoder := d } := by
  unfold decoderStalls at h
  cases hg with
  | full hd hfull =>
    intro _
    show x.spsc.r.backpressureHigh.toNat ≤ level x.spsc
    rw [← level_eq (hs.linked (decoder_live hs (by rw [hd]; rfl)))]
    exact UInt32.le_iff_toNat_le.mp (of_decide_eq_true hfull)
  | above hd hlow =>
    rw [hd] at h
    refine ⟨h, .inr (.inr ?_)⟩
    show x.spsc.r.backpressureLow.toNat ≤ level x.spsc
    rw [← level_eq (hs.linked (decoder_live hs (by rw [hd]; rfl)))]
    exact UInt32.le_iff_toNat_le.mp hlow
  | waitHeld hd =>
    rw [hd] at h
    exact h
  | timeout ha =>
    generalize hd : x.decoder = e at ha h
    cases ha with
    | hold => exact h.1
    | _ => trivial
  | _ => trivial

theorem decodes_stalls (hd : Decodes src x x') (hs : Sound src x) (hst : decoderStreams src x)
    (h : decoderStalls x) : decoderStalls x' := by
  cases hd with
  | stays => exact h
  | goes hg => exact goes_stalls hg hs h
  | takes ha =>
    unfold decoderStalls at h
    generalize hd : x.decoder = e at ha h
    cases ha with
    | hold => exact h.1
    | _ => trivial
  | writes hd =>
    have hidle := hs.control.resting (by simp [hd])
    simp only [spscStep]
    split
    · intro source write copied hp
      cases hp
    · intro source write copied hp
      rw [show x.spsc.producer = .copying source write 0 copied from hp] at hidle
      cases hidle
  | copies hd hbusy =>
    have hlive := decoder_live hs (by rw [hd]; rfl)
    unfold decoderStreams at hst
    unfold decoderStalls
    rw [hd] at hst
    simp only [hd]
    obtain ⟨-, -, -, hlt, hwrites⟩ := hst
    refine writing_stalls hs hlive ?_ hwrites
    rw [UInt32.toNat_sub_of_le _ _ (UInt32.le_iff_toNat_le.mpr (Nat.le_of_lt hlt))]
    omega
  | wrote hd hidle =>
    have hlive := decoder_live hs (by rw [hd]; rfl)
    have hlinked := hs.linked hlive
    unfold decoderStreams at hst
    unfold decoderStalls at h
    rw [hd] at hst h
    obtain ⟨-, hopen, -, -, hwrites⟩ := hst
    by_cases hzero : writeReturns x.spsc = 0
    · rw [if_pos hzero]
      obtain ⟨source, write, copied, hp⟩ := writeReturns_zero hwrites hopen hidle hzero
      obtain ⟨hprimed, hawake⟩ := h source write copied hp
      exact ⟨primed_producerStep hlinked hprimed, awake_producerStep hlinked hawake _⟩
    · rw [if_neg hzero]
      trivial
  | _ => trivial

/-- The decoder leaves the consumer's part of the reservoir as it is. -/
theorem decodes_state (hd : Decodes src x x') : x'.spsc.r.state = x.spsc.r.state := by
  cases hd with
  | finishes | writes =>
    simp only [spscStep]
    split
    · rfl
    · rfl
  | copies | wrote =>
    rw [producerStep_frame]
  | _ => rfl

theorem decodes_keepStalls (hd : Decodes src x x') (hs : Sound src x) (hst : Streams src x)
    (h : Stalls x) : Stalls x' := by
  have hstate := decodes_state hd
  have hgives := decodes_gives hd hs hst.decoder
  obtain ⟨hframe, hconsumer⟩ := decodes_frame hd
  refine ⟨decodes_stalls hd hs hst.decoder h.decoder, ?_, ?_⟩
  · intro hlive hdrained
    have hfin := h.drained ((decodes_live hd).mp hlive) (hstate ▸ hdrained)
    rcases hgives.finished with hsame | ⟨hup, -⟩
    · exact hsame.trans hfin
    · exact hup
  · rw [hconsumer, hframe]
    exact h.asks

end Decoder

/-! ## The owner -/

section Owner

variable {src : Source σ} {x x' : Player σ}

/-- A decoder that is not there, or behind the gate, does not wait for room. -/
theorem stalls_quiescent (h : Quiescent x.decoder x.gate) : decoderStalls x := by
  unfold decoderStalls
  rcases h with hnone | ⟨hparked, -⟩
  · simp only [hnone]
  · cases hd : x.decoder with
    | gateLoad | gateQuit | gateTake => trivial
    | _ =>
      rw [hd] at hparked
      cases hparked

/-- What the waits need of a move that is not the decoder's. -/
theorem stalls_mono (h : decoderStalls x) (hst : decoderStreams src x)
    (hdecoder : x'.decoder = x.decoder) (hproducer : x'.spsc.producer = x.spsc.producer)
    (hprimed : x.spsc.r.finished = false → Primed x.spsc → Primed x'.spsc)
    (hawake : x.spsc.r.finished = false → Awake x → Awake x') : decoderStalls x' := by
  unfold decoderStalls at h ⊢
  unfold decoderStreams at hst
  rw [hdecoder, hproducer]
  cases hd : x.decoder with
  | hold =>
    rw [hd] at h hst
    exact hprimed hst.2 h
  | holdQuit | holdTake | writeTake =>
    rw [hd] at h hst
    first
      | exact ⟨hprimed hst.2 h.1, hawake hst.2 h.2⟩
      | exact ⟨hprimed hst.2.1 h.1, hawake hst.2.1 h.2⟩
  | writing =>
    rw [hd] at h hst
    intro source write copied hp
    obtain ⟨hp, ha⟩ := h source write copied hp
    exact ⟨hprimed hst.2.1 hp, hawake hst.2.1 ha⟩
  | _ => trivial

/-- The consumer about to end a pull, and what it has pulled. -/
theorem release_copying {s : Spsc} (hbusy : s.consumer ≠ .idle)
    (hidle : (consumerStep s).consumer = .idle) : ∃ n finished read available loaded,
      s.consumer = .copying n finished read available loaded ∧
      ¬ loaded.length < (pullTake s.r finished available n).toNat * channelsOf s := by
  rcases hc : s.consumer with _ | n | ⟨n, fin⟩ | ⟨n, fin, read⟩ | ⟨n, fin, read, available, loaded⟩
  · exact absurd hc hbusy
  · rw [consumerStep_called hc] at hidle
    cases hidle
  · rw [consumerStep_sawFinished hc] at hidle
    cases hidle
  · rw [consumerStep_sawRead hc] at hidle
    cases hidle
  · by_cases hmore : loaded.length < (pullTake s.r fin available n).toNat * channelsOf s
    · rw [consumerStep_load hc hmore] at hidle
      cases hidle
    · exact ⟨n, fin, read, available, loaded, rfl, hmore⟩

/-- A pull that returns, with what it has seen and what it leaves. -/
structure Released (s : Spsc) (n : UInt32) (finished : Bool) (available : UInt32)
    (loaded : List Int32) (done : PullDone) : Prop where
  pulled : done.pulled = pullRest s.r finished s.r.readCursor available n loaded
  reservoir : (consumerStep s).r = done.pulled.reservoir
  delivered : (consumerStep s).delivered.drop s.delivered.length = loaded
  length : loaded.length = (pullTake s.r finished available n).toNat * channelsOf s
  seen : available.toNat ≤ level s
  left : level (consumerStep s) = level s - (pullTake s.r finished available n).toNat
  saw : finished = true → s.r.finished = true

theorem released {s : Spsc} (h : Linked s) {n read available : UInt32} {finished : Bool}
    {loaded : List Int32} (hc : s.consumer = .copying n finished read available loaded)
    (hdone : ¬ loaded.length < (pullTake s.r finished available n).toNat * channelsOf s)
    {done : PullDone} (hlast : (consumerStep s).pulls.getLast? = some done) :
    Released s n finished available loaded done := by
  obtain ⟨w, r, hf⟩ := h.queue
  obtain ⟨r₀, hh, -⟩ := h.history
  obtain ⟨-, havail, hlen, -⟩ := copied_all hf hc hdone
  have heq := release_eq hf hc hdone
  have hlevel := toNat_level hf
  have hlevel' := toNat_level (fifo_release hf hc hdone)
  have hsaw := hh.saw
  unfold consumerSaw at hsaw
  rw [hc] at hsaw
  rw [heq] at hlast
  obtain rfl : _ = done := by simpa using hlast
  refine ⟨rfl, by rw [heq], ?_, hlen, ?_, ?_, hsaw.1.1⟩
  · rw [heq]
    exact List.drop_left
  · unfold level
    omega
  · unfold level
    rw [hlevel, hlevel']
    omega

/-- What the owner's pull has seen and leaves. -/
theorem pulling_released (hs : Sound src x) {owned : Buffer} (ho : x.owner = .pulling owned)
    (hidle : (consumerStep x.spsc).consumer = .idle) {done : PullDone}
    (hlast : (consumerStep x.spsc).pulls.getLast? = some done) :
    ∃ n finished read available loaded,
      x.spsc.consumer = .copying n finished read available loaded ∧
      Released x.spsc n finished available loaded done := by
  obtain ⟨-, hbusy⟩ := hs.control.stands ho
  obtain ⟨n, finished, read, available, loaded, hc, hdone⟩ := release_copying hbusy hidle
  exact ⟨n, finished, read, available, loaded, hc,
    released (hs.linked (pulling_live hs ho).2) hc hdone hlast⟩

/-- The end of a pull leaves enough, or it wakes the decoder. -/
theorem releases_stalls (hs : Sound src x) (hst : decoderStreams src x) (h : decoderStalls x)
    {owned : Buffer} (ho : x.owner = .pulling owned) (hidle : (consumerStep x.spsc).consumer = .idle)
    {done : PullDone} (hlast : (consumerStep x.spsc).pulls.getLast? = some done)
    (hx' : x'.spsc = consumerStep x.spsc ∧ x'.decoder = x.decoder ∧ x'.wake = x.wake ∧
      x'.owner = .waking owned done.pulled) : decoderStalls x' := by
  obtain ⟨hspsc, hdecoder, hwake, howner⟩ := hx'
  obtain ⟨-, hlive⟩ := pulling_live hs ho
  obtain ⟨n, finished, read, available, loaded, -, hr⟩ := pulling_released hs ho hidle hlast
  have hmarks := spscStep_marks x.spsc .consumer
  have hproducer : (consumerStep x.spsc).producer = x.spsc.producer := by rw [consumerStep_frame]
  -- a decoder that waits has not raised the flag, so the pull has not seen it
  have hdown : x.spsc.r.finished = false → finished = false := by
    intro hopen
    by_contra hup
    have hfin := hr.saw (Bool.eq_true_of_not_eq_false hup)
    rw [hopen] at hfin
    cases hfin
  apply stalls_mono h hst hdecoder (by rw [hspsc, hproducer])
  · intro hopen hprimed
    rw [hspsc]
    intro hstate
    have hpulled := hr.pulled
    rw [hdown hopen] at hpulled
    rw [hr.reservoir, hpulled] at hstate
    obtain ⟨hbefore, hzero⟩ := pullRest_prebuffering _ _ _ _ _ hstate
    have hleft := hr.left
    rw [hdown hopen, hzero] at hleft
    rw [show (consumerStep x.spsc).r.backpressureHigh = _ from hmarks.high, hleft]
    exact hprimed hbefore
  · intro hopen hawake
    have hpulled := hr.pulled
    rw [hdown hopen] at hpulled
    unfold Awake
    rw [hwake, howner, hspsc, show (consumerStep x.spsc).r.backpressureLow = _ from hmarks.low]
    by_cases hlow : x.spsc.r.backpressureLow.toNat ≤ level (consumerStep x.spsc)
    · exact .inr (.inr hlow)
    · refine .inr (.inl ⟨owned, done.pulled, rfl, ?_⟩)
      have hon : x.spsc.r.wakeProducer = true := hs.fits.wakes hlive.1
      have htake := pullTake_le x.spsc.r false available n
      have hsub : (available - pullTake x.spsc.r false available n).toNat =
          available.toNat - (pullTake x.spsc.r false available n).toNat :=
        UInt32.toNat_sub_of_le _ _ (UInt32.le_iff_toNat_le.mpr htake)
      have hseen := hr.seen
      have hleft := hr.left
      rw [hdown hopen] at hleft
      rw [hpulled, pullRest_wake, hon, Bool.and_true]
      refine decide_eq_true (UInt32.lt_iff_toNat_lt.mpr ?_)
      omega

/-- A pull asks for the same frames to its end. -/
theorem asks_step {s : Spsc} {n : UInt32} (h : Asks n s.consumer) :
    Asks n (consumerStep s).consumer := by
  rcases hc : s.consumer with _ | n | ⟨n, fin⟩ | ⟨n, fin, read⟩ | ⟨n, fin, read, available, loaded⟩
  all_goals rw [hc] at h
  · rw [consumerStep_idle hc, hc]
    trivial
  · rw [consumerStep_called hc]
    exact h
  · rw [consumerStep_sawFinished hc]
    exact h
  · rw [consumerStep_sawRead hc]
    exact h
  · by_cases hmore : loaded.length < (pullTake s.r fin available n).toNat * channelsOf s
    · rw [consumerStep_load hc hmore]
      exact h
    · rw [consumerStep_release hc hmore]
      trivial

theorem awake_untied (h : Awake x) (htied : x.owner.tied = false) (hwake : x'.wake = x.wake)
    (hr : x'.spsc.r = x.spsc.r) : Awake x' := by
  unfold Awake level
  rw [hwake, hr]
  rcases h with htoken | ⟨owned, pulled, ho, -⟩ | hlow
  · exact .inl htoken
  · rw [ho] at htied
    cases htied
  · exact .inr (.inr hlow)

theorem owns_stalls (hm : Owns src x x') (hs : Sound src x) (hst : decoderStreams src x)
    (h : decoderStalls x) : decoderStalls x' := by
  have hparked : ∀ sought caller, x.owner = .launching sought caller ∨ x.owner = .opening caller →
      x.decoder.parked = true ∧ x.gate = false := by
    rintro sought caller (ho | ho)
    · obtain ⟨hparked, hgate, -⟩ := hs.control.stands ho
      exact ⟨hparked, hgate⟩
    · obtain ⟨hparked, hgate, -⟩ := hs.control.stands ho
      exact ⟨hparked, hgate⟩
  cases hm with
  | aside _ _ _ htied =>
    exact stalls_mono h hst rfl rfl (fun _ => id) (fun _ ha => awake_untied ha htied rfl rfl)
  | queues => exact h
  | prepares hnone => exact stalls_quiescent (.inl hnone)
  | creates => trivial
  | resets hq => exact stalls_quiescent hq
  | starts ho => exact stalls_quiescent (.inr (hparked _ _ (.inl ho)))
  | opens ho =>
    have hd := (hparked none _ (.inr ho)).1
    unfold decoderStalls
    cases hdecoder : x.decoder with
    | gateLoad | gateQuit | gateTake => trivial
    | _ =>
      rw [hdecoder] at hd
      cases hd
  | aborts ho | quits ho =>
    exact stalls_mono h hst rfl rfl (fun _ => id)
      (fun _ ha => awake_untied ha (by rw [ho]; rfl) rfl rfl)
  | gives => exact stalls_mono h hst rfl rfl (fun _ => id) (fun _ _ => .inl rfl)
  | joins => trivial
  | seeks => exact h
  | pulls ho _ hvalid =>
    have hidle := hs.control.unpulled (by rw [ho]; rfl)
    rw [pull_called hidle hvalid]
    exact stalls_mono h hst rfl rfl (fun _ => id)
      (fun _ ha => awake_untied ha (by rw [ho]; rfl) rfl rfl)
  | refuses => exact h
  | loads _ hbusy =>
    rw [consumerStep_loads hbusy]
    exact h
  | releases ho hidle hlast =>
    exact releases_stalls hs hst h ho hidle hlast ⟨rfl, rfl, rfl, rfl⟩
  | wakes ho =>
    refine stalls_mono h hst rfl rfl (fun _ => id) ?_
    rintro - (htoken | ⟨owned, pulled, hwaking, hwake⟩ | hlow)
    · exact .inl (Bool.or_eq_true_iff.mpr (.inl htoken))
    · rw [ho] at hwaking
      injection hwaking with _ hpulled
      exact .inl (Bool.or_eq_true_iff.mpr (.inr (hpulled ▸ hwake)))
    · exact .inr (.inr hlow)
  | detaches hnone => exact stalls_quiescent (.inl hnone)

theorem owns_keepStalls (hm : Owns src x x') (hs : Sound src x) (hst : Streams src x)
    (h : Stalls x) : Stalls x' := by
  refine ⟨owns_stalls hm hs hst.decoder h.decoder, ?_, ?_⟩
  · intro hlive hdrained
    cases hm with
    | aside _ _ _ _ htied => exact h.drained (hlive.before (Owner.untied htied) rfl rfl) hdrained
    | prepares _ _ htied => exact absurd hlive (not_live rfl htied)
    | creates | aborts | quits | wakes => exact h.drained (hlive.before nofun rfl rfl) hdrained
    | resets => cases hdrained
    | starts _ hspsc =>
      have hstate : x.spsc.r.state = .drained := hdrained
      rw [hspsc] at hstate
      cases hstate
    | opens ho => exact h.drained ⟨hlive.1, .inr ⟨_, ho⟩⟩ hdrained
    | pulls ho _ hvalid =>
      have hidle := hs.control.unpulled (by rw [ho]; rfl)
      rw [pull_called hidle hvalid] at hdrained ⊢
      exact h.drained (hlive.before nofun rfl rfl) hdrained
    | loads _ hbusy =>
      rw [consumerStep_loads hbusy] at hdrained ⊢
      exact h.drained hlive hdrained
    | @releases owned done ho hidle hlast =>
      have hl : Live x := hlive.before nofun rfl rfl
      obtain ⟨n, finished, read, available, loaded, -, hr⟩ := pulling_released hs ho hidle hlast
      have hfin : (consumerStep x.spsc).r.finished = x.spsc.r.finished := by
        rw [consumerStep_frame]
      have hstate : done.pulled.reservoir.state = .drained := hr.reservoir ▸ hdrained
      rw [hr.pulled] at hstate
      show (consumerStep x.spsc).r.finished = true
      rw [hfin]
      rcases pullRest_drained _ _ _ _ _ _ hstate with hsaw | hbefore
      · exact hr.saw hsaw
      · exact h.drained hl hbefore
    | detaches => cases hlive.1
    | _ => exact h.drained hlive hdrained
  · have hasks := h.asks
    cases hm with
    | aside _ _ _ htied _ _ hsizes =>
      show Asks _ x.spsc.consumer
      rw [hs.control.unpulled htied]
      trivial
    | starts ho _ _ hsizes =>
      show Asks _ x.spsc.consumer
      rw [hs.control.unpulled (by rw [ho]; rfl)]
      trivial
    | resets => trivial
    | pulls ho _ hvalid =>
      rw [pull_called (hs.control.unpulled (by rw [ho]; rfl)) hvalid]
      rfl
    | loads =>
      show Asks _ (consumerStep x.spsc).consumer
      exact asks_step hasks
    | releases _ hidle =>
      show Asks _ (consumerStep x.spsc).consumer
      rw [hidle]
      trivial
    | _ => exact hasks

end Owner

end EmbeddedAudio.Playback
