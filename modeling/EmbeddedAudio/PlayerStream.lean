-- The player loses nothing: what is pulled is what the source yields from where it
-- stood at the last start, in order, and the reservoir is reset only while nobody
-- uses it.
import EmbeddedAudio.PipelineContainment
import EmbeddedAudio.PlayerControl
import EmbeddedAudio.SpscDrain

namespace EmbeddedAudio.Playback

open EmbeddedAudio.Core Storage Cursor

variable {σ : Type}

/-! ## What the source yields -/

/-- Where the source stands after `k` reads. -/
def Source.after (src : Source σ) (s : σ) : Nat → σ
  | 0 => s
  | k + 1 => (src.read (src.after s k)).2

/-- What read `k` returns. -/
def Source.answer (src : Source σ) (s : σ) (k : Nat) : ReadAnswer := (src.read (src.after s k)).1

/-- The frames of the first `k` reads. -/
def Source.yields (src : Source σ) (s : σ) : Nat → List Int32
  | 0 => []
  | k + 1 => src.yields s k ++ (src.answer s k).samples src.format.numChannels

/-- None of the first `k` reads fails. -/
def Source.Reads (src : Source σ) (s : σ) (k : Nat) : Prop :=
  ∀ j < k, readFails (src.answer s j) = false

/-- The last of `k` reads has found the end. -/
def Source.Ends (src : Source σ) (s : σ) (k : Nat) : Prop :=
  ∃ j, k = j + 1 ∧ (src.answer s j).frames = 0

theorem Source.Reads.succ {src : Source σ} {s : σ} {k : Nat} (h : src.Reads s k)
    (hk : readFails (src.answer s k) = false) : src.Reads s (k + 1) := by
  intro j hj
  rcases Nat.lt_or_eq_of_le (Nat.le_of_lt_succ hj) with hlt | rfl
  · exact h j hlt
  · exact hk

/-! ## The laws -/

/-- Every frame that was read since the last start is in the reservoir, or it was delivered, or it
is one of the samples `rest`. The source has not moved since. -/
def Whole (src : Source σ) (x : Player σ) (rest : List Int32) : Prop :=
  ∃ k, src.Reads x.origin k ∧ x.position = src.after x.origin k ∧
    x.spsc.accepted ++ rest = src.yields x.origin k

/-- The reservoir has got everything up to the end of the source. -/
def AtEnd (src : Source σ) (x : Player σ) : Prop :=
  ∃ k, src.Reads x.origin k ∧ src.Ends x.origin k ∧ x.spsc.accepted = src.yields x.origin k

/-- A write of `rest`, which are `left` frames, is under way. -/
def Writes (s : Spsc) (rest : List Int32) (left : UInt32) : Prop :=
  match s.producer with
  | .idle => False
  | .called src frames => src = rest ∧ frames = left
  | .opened src frames => src = rest ∧ frames = left
  | .placed src frames _ => src = rest ∧ frames = left
  | .copying src _ frames _ => src = rest ∧ frames.toNat ≤ left.toNat

/-- What the decoder has not handed on yet. -/
def leftOf (src : Source σ) (samples : List Int32) (offset : UInt32) : List Int32 :=
  samples.drop (offset.toNat * src.format.numChannels)

def decoderStreams (src : Source σ) (x : Player σ) : Prop :=
  match x.decoder with
  | .gateLoad | .gateQuit | .gateTake =>
    x.gate = true → Whole src x [] ∧ x.spsc.r.finished = false
  | .loop false => x.quit = true ∨ Whole src x [] ∧ x.spsc.r.finished = false
  | .pressure | .hold | .holdQuit | .holdTake | .checkQuit | .reading =>
    Whole src x [] ∧ x.spsc.r.finished = false
  | .finishing => AtEnd src x
  | .writeTest frames samples offset =>
    Whole src x (leftOf src samples offset) ∧ x.spsc.r.finished = false ∧
      samples.length = frames.toNat * src.format.numChannels ∧ offset.toNat ≤ frames.toNat
  | .writing frames samples offset =>
    Whole src x (leftOf src samples offset) ∧ x.spsc.r.finished = false ∧
      samples.length = frames.toNat * src.format.numChannels ∧ offset.toNat < frames.toNat ∧
      Writes x.spsc (leftOf src samples offset) (frames - offset)
  | .writeTake frames samples offset =>
    Whole src x (leftOf src samples offset) ∧ x.spsc.r.finished = false ∧
      samples.length = frames.toNat * src.format.numChannels ∧ offset.toNat < frames.toNat
  | _ => True

/-- The last start that is written down, with the frame that was sought for it. -/
def lastStart (events : List (Event σ)) : Option (Option UInt64 × σ) :=
  (events.filterMap fun
    | .start sought origin => some (sought, origin)
    | _ => none).getLast?

/-- What the player promises about its frames. -/
structure Lossless (src : Source σ) (x : Player σ) : Prop where
  resets : ∀ decoder gate, .reset decoder gate ∈ x.events → Quiescent decoder gate
  /-- A start that is part of a seek finds the source at the frame that was sought. -/
  started : ∀ sought origin, lastStart x.events = some (sought, origin) →
    x.origin = origin ∧ Sought src origin sought
  order : ∃ k, src.Reads x.origin k ∧ x.pulled <+: src.yields x.origin k
  /-- The end is marked behind the last frame of the source. -/
  last : x.ended = true →
    ∃ k, src.Reads x.origin k ∧ src.Ends x.origin k ∧ x.pulled = src.yields x.origin k
  completed : x.pipeline.state = .running → x.pipeline.completed = true → x.ended = true

/-- What holds between the decoder, the reservoir and the pulls. -/
structure Streams (src : Source σ) (x : Player σ) : Prop extends Lossless src x where
  decoder : decoderStreams src x
  opening : ∀ caller, x.owner = .opening caller → Whole src x [] ∧ x.spsc.r.finished = false
  sent : Live x → ∃ k, src.Reads x.origin k ∧ x.spsc.accepted <+: src.yields x.origin k
  finished : Live x → x.spsc.r.finished = true → AtEnd src x
  playing : x.pipeline.state = .running → x.pulled = x.spsc.delivered ∧
    (x.ended = true → x.spsc.r.finished = true ∧ x.spsc.delivered = x.spsc.accepted)

/-! ## The decoder -/

section Decoder

variable {src : Source σ} {x x' : Player σ}

theorem writeFrames_le (r : Reservoir) (frames write read : UInt32) :
    (writeFrames r frames write read).toNat ≤ frames.toNat := by
  unfold writeFrames
  simp only
  split
  · rename_i hgt
    exact Nat.le_of_lt (UInt32.lt_iff_toNat_lt.mp hgt)
  · exact Nat.le_refl _

/-- A write that goes on. -/
theorem writes_copies {s : Spsc} {rest : List Int32} {left : UInt32} (h : Writes s rest left)
    (hbusy : (producerStep s).producer ≠ .idle) :
    Writes (producerStep s) rest left ∧ (producerStep s).accepted = s.accepted ∧
      (producerStep s).r.finished = s.r.finished := by
  unfold Writes at h
  rcases hp : s.producer with _ | ⟨src, frames⟩ | ⟨src, frames⟩ | ⟨src, frames, write⟩ |
    ⟨src, write, frames, copied⟩
  all_goals rw [hp] at h
  · cases h
  · rw [producerStep_called hp] at hbusy ⊢
    refine ⟨?_, rfl, rfl⟩
    rcases hfin : s.r.finished
    · exact h
    · simp [hfin] at hbusy
  · rw [producerStep_opened hp]
    exact ⟨h, rfl, rfl⟩
  · rw [producerStep_placed hp]
    obtain ⟨rfl, rfl⟩ := h
    exact ⟨⟨rfl, writeFrames_le _ _ _ _⟩, rfl, rfl⟩
  · by_cases hmore : copied < frames.toNat * channelsOf s
    · rw [producerStep_store hp hmore]
      exact ⟨h, rfl, rfl⟩
    · rw [producerStep_publish hp hmore] at hbusy
      exact absurd rfl hbusy

/-- A write that is done has accepted the first frames of what it was given. -/
theorem writes_wrote {s : Spsc} {rest : List Int32} {left : UInt32} (h : Writes s rest left)
    (hopen : s.r.finished = false) (hidle : (producerStep s).producer = .idle) :
    (producerStep s).accepted =
        s.accepted ++ rest.take ((writeReturns s).toNat * channelsOf s) ∧
      (writeReturns s).toNat ≤ left.toNat ∧ (producerStep s).r.finished = false := by
  unfold Writes at h
  unfold writeReturns
  rcases hp : s.producer with _ | ⟨src, frames⟩ | ⟨src, frames⟩ | ⟨src, frames, write⟩ |
    ⟨src, write, frames, copied⟩
  all_goals rw [hp] at h
  · cases h
  · rw [producerStep_called hp] at hidle
    simp [hopen] at hidle
  · rw [producerStep_opened hp] at hidle
    cases hidle
  · rw [producerStep_placed hp] at hidle
    cases hidle
  · by_cases hmore : copied < frames.toNat * channelsOf s
    · rw [producerStep_store hp hmore] at hidle
      cases hidle
    · rw [producerStep_publish hp hmore]
      obtain ⟨rfl, hle⟩ := h
      exact ⟨rfl, hle, hopen⟩

/-- The source yields the frames of one read more. -/
theorem whole_read {a : ReadAnswer} {position : σ} (h : Whole src x [])
    (hread : src.read x.position = (a, position)) (hok : readFails a = false) :
    ∃ k, src.Reads x.origin (k + 1) ∧ position = src.after x.origin (k + 1) ∧
      src.answer x.origin k = a ∧
      x.spsc.accepted ++ a.samples src.format.numChannels = src.yields x.origin (k + 1) := by
  obtain ⟨k, hreads, hposition, haccepted⟩ := h
  rw [List.append_nil] at haccepted
  have hanswer : src.answer x.origin k = a := by
    unfold Source.answer
    rw [← hposition, hread]
  refine ⟨k, hreads.succ (by rw [hanswer]; exact hok), ?_, hanswer, ?_⟩
  · rw [Source.after, ← hposition, hread]
  · rw [Source.yields, hanswer, haccepted]

/-- The frames behind the ones that a write has accepted. -/
theorem leftOf_split (src : Source σ) (samples : List Int32) (offset n : UInt32)
    (hsum : (offset + n).toNat = offset.toNat + n.toNat) :
    (leftOf src samples offset).take (n.toNat * src.format.numChannels) ++
      leftOf src samples (offset + n) = leftOf src samples offset := by
  unfold leftOf
  rw [hsum, Nat.add_mul, ← List.drop_drop, List.take_append_drop]

/-- Where the decoder goes without a step on the reservoir. -/
theorem goes_streams {d : Decoder} (hg : Goes x d) (h : decoderStreams src x) :
    decoderStreams src { x with decoder := d } := by
  unfold decoderStreams at h
  cases hg with
  | pass hd hgate =>
    rw [hd] at h
    exact .inr (h hgate)
  | shut hd =>
    rw [hd] at h
    exact h
  | quitAtGate _ hquit => exact .inl hquit
  | waitAtGate hd =>
    rw [hd] at h
    exact h
  | leave => trivial
  | linger => trivial
  | next hd hquit =>
    rw [hd] at h
    apply h.resolve_left
    rw [hquit]
    exact Bool.false_ne_true
  | full hd | spare hd | above hd | below hd | quitHeld hd | waitHeld hd | read hd =>
    rw [hd] at h
    exact h
  | exit => trivial
  | @written frames samples offset hd hdone =>
    rw [hd] at h
    obtain ⟨hwhole, hfin, hlength, hle⟩ := h
    by_cases hquit : x.quit = true
    · exact .inl hquit
    · have heq : offset.toNat = frames.toNat := by
        have hge := hdone (Bool.eq_false_of_not_eq_true hquit)
        rw [UInt32.lt_iff_toNat_lt] at hge
        omega
      have hnone : leftOf src samples offset = [] := by
        unfold leftOf
        rw [heq, ← hlength, List.drop_length]
      rw [hnone] at hwhole
      exact .inr ⟨hwhole, hfin⟩
  | timeout ha =>
    generalize hd : x.decoder = e at ha h
    cases ha with
    | gate => exact h
    | ended => trivial
    | hold => exact h
    | write => exact ⟨h.1, h.2.1, h.2.2.1, Nat.le_of_lt h.2.2.2⟩

theorem decodes_streams (hd : Decodes src x x') (hs : Sound src x) (h : decoderStreams src x) :
    decoderStreams src x' := by
  have hchannels : channelsOf x.spsc = src.format.numChannels := by
    unfold channelsOf
    rw [hs.fits.format]
  cases hd with
  | stays => exact h
  | goes hg => exact goes_streams hg h
  | takes ha => exact goes_streams (.timeout ha) h
  | fails => trivial
  | ends hd hread hok hnone =>
    unfold decoderStreams at h
    rw [hd] at h
    obtain ⟨k, hreads, -, hanswer, haccepted⟩ := whole_read h.1 hread hok
    refine ⟨k + 1, hreads, ⟨k, rfl, by rw [hanswer]; exact hnone⟩, ?_⟩
    rw [← haccepted]
    simp [ReadAnswer.samples, hnone]
  | gets hd hread hok _ =>
    unfold decoderStreams at h
    rw [hd] at h
    obtain ⟨k, hreads, hposition, -, haccepted⟩ := whole_read h.1 hread hok
    refine ⟨⟨k + 1, hreads, hposition, ?_⟩, h.2, ?_, Nat.zero_le _⟩
    · unfold leftOf
      rw [show (0 : UInt32).toNat = 0 from rfl, Nat.zero_mul, List.drop_zero, hchannels]
      exact haccepted
    · simp [ReadAnswer.samples, hchannels]
  | failed => trivial
  | finishes => trivial
  | @writes frames samples offset hd hlt _ =>
    unfold decoderStreams at h
    rw [hd] at h
    obtain ⟨hwhole, hfin, hlength, -⟩ := h
    have hlt' := UInt32.lt_iff_toNat_lt.mp hlt
    have hidle := hs.control.resting (by simp [hd])
    have hsub : (frames - offset).toNat = frames.toNat - offset.toNat :=
      UInt32.toNat_sub_of_le _ _ (UInt32.le_iff_toNat_le.mpr (Nat.le_of_lt hlt'))
    have hcall : spscStep x.spsc
        (.write (samples.drop (offset.toNat * channelsOf x.spsc)) (frames - offset)) =
        { x.spsc with producer := .called (leftOf src samples offset) (frames - offset) } := by
      unfold leftOf
      rw [hchannels]
      simp only [spscStep]
      refine if_pos ⟨hidle, ?_⟩
      rw [List.length_drop, hlength, hchannels, hsub, Nat.sub_mul]
    rw [hcall]
    exact ⟨hwhole, hfin, hlength, hlt', rfl, rfl⟩
  | copies hd hbusy =>
    unfold decoderStreams at h
    rw [hd] at h
    obtain ⟨⟨k, hreads, hposition, haccepted⟩, hfin, hlength, hlt, hwrites⟩ := h
    obtain ⟨hwrites', hsame, hfin'⟩ := writes_copies hwrites hbusy
    unfold decoderStreams
    simp only [hd]
    exact ⟨⟨k, hreads, hposition, by rw [hsame]; exact haccepted⟩, by rw [hfin']; exact hfin, hlength,
      hlt, hwrites'⟩
  | @wrote frames samples offset hd hidle =>
    unfold decoderStreams at h
    rw [hd] at h
    obtain ⟨⟨k, hreads, hposition, haccepted⟩, hfin, hlength, hlt, hwrites⟩ := h
    obtain ⟨htaken, hle, hfin'⟩ := writes_wrote hwrites hfin hidle
    have hsub : (frames - offset).toNat = frames.toNat - offset.toNat :=
      UInt32.toNat_sub_of_le _ _ (UInt32.le_iff_toNat_le.mpr (Nat.le_of_lt hlt))
    have hsum : (offset + writeReturns x.spsc).toNat =
        offset.toNat + (writeReturns x.spsc).toNat := by
      rw [UInt32.toNat_add, Nat.mod_eq_of_lt]
      have := frames.toNat_lt
      omega
    have hwhole : (producerStep x.spsc).accepted ++
        leftOf src samples (offset + writeReturns x.spsc) = src.yields x.origin k := by
      rw [htaken, List.append_assoc, hchannels, leftOf_split src samples offset _ hsum, haccepted]
    by_cases hzero : writeReturns x.spsc = 0
    · rw [if_pos hzero]
      rw [hzero, UInt32.add_zero] at hwhole
      exact ⟨⟨k, hreads, hposition, hwhole⟩, hfin', hlength, hlt⟩
    · rw [if_neg hzero]
      exact ⟨⟨k, hreads, hposition, hwhole⟩, hfin', hlength, by omega⟩

/-- What the decoder makes of the reservoir: it gives it frames of the source, and it raises the flag
behind the last one. -/
structure Gives (src : Source σ) (x x' : Player σ) : Prop where
  delivered : x'.spsc.delivered = x.spsc.delivered
  accepted : x'.spsc.accepted = x.spsc.accepted ∨ x.spsc.r.finished = false ∧
    x'.spsc.r.finished = false ∧
    ∃ k, src.Reads x.origin k ∧ x'.spsc.accepted <+: src.yields x.origin k
  finished : x'.spsc.r.finished = x.spsc.r.finished ∨ x'.spsc.r.finished = true ∧ AtEnd src x'

theorem decodes_gives (hd : Decodes src x x') (hs : Sound src x) (h : decoderStreams src x) :
    Gives src x x' := by
  cases hd with
  | finishes hd =>
    unfold decoderStreams at h
    rw [hd] at h
    have hidle := hs.control.resting (by simp [hd])
    have hcall : spscStep x.spsc .finish = { x.spsc with r := reservoirFinish x.spsc.r } := by
      simp only [spscStep]
      exact if_pos hidle
    rw [hcall]
    exact ⟨rfl, .inl rfl, .inr ⟨rfl, h⟩⟩
  | writes =>
    simp only [spscStep]
    split
    · exact ⟨rfl, .inl rfl, .inl rfl⟩
    · exact ⟨rfl, .inl rfl, .inl rfl⟩
  | copies hd hbusy =>
    unfold decoderStreams at h
    rw [hd] at h
    obtain ⟨-, hsame, hfin⟩ := writes_copies h.2.2.2.2 hbusy
    exact ⟨by rw [producerStep_frame], .inl hsame, .inl hfin⟩
  | wrote hd hidle =>
    unfold decoderStreams at h
    rw [hd] at h
    obtain ⟨⟨k, hreads, -, haccepted⟩, hfin, -, -, hwrites⟩ := h
    obtain ⟨htaken, -, hfin'⟩ := writes_wrote hwrites hfin hidle
    refine ⟨by rw [producerStep_frame], .inr ⟨hfin, hfin', k, hreads, ?_⟩,
      .inl (hfin'.trans hfin.symm)⟩
    show (producerStep x.spsc).accepted <+: _
    rw [htaken, ← haccepted]
    exact (List.prefix_append_right_inj _).mpr (List.take_prefix _ _)
  | _ => exact ⟨rfl, .inl rfl, .inl rfl⟩

theorem decodes_keeps (hd : Decodes src x x') (hs : Sound src x) (h : Streams src x) :
    Streams src x' := by
  have hdecoder := decodes_streams hd hs h.decoder
  have hgives := decodes_gives hd hs h.decoder
  have hparked := decodes_parked hd
  have hframe := (decodes_frame hd).1
  have hevents : x'.events = x.events := by rw [hframe]
  have horigin : x'.origin = x.origin := by rw [hframe]
  have hpulled : x'.pulled = x.pulled := by rw [hframe]
  have hended : x'.ended = x.ended := by rw [hframe]
  have hpipeline : x'.pipeline = x.pipeline := by rw [hframe]
  have howner : x'.owner = x.owner := by rw [hframe]
  have hlive := (decodes_live hd).mp
  refine {
    resets := hevents ▸ h.resets
    started := by rw [hevents, horigin]; exact h.started
    order := by rw [horigin, hpulled]; exact h.order
    last := by rw [horigin, hpulled, hended]; exact h.last
    completed := by rw [hpipeline, hended]; exact h.completed
    decoder := hdecoder
    opening := ?_
    sent := ?_
    finished := ?_
    playing := ?_ }
  · intro caller ho
    rw [howner] at ho
    obtain ⟨hbehind, hgate, hquit⟩ := hs.control.stands ho
    obtain ⟨-, hposition, hspsc⟩ := hparked hbehind hgate hquit
    have hwhole := h.opening caller ho
    unfold Whole at hwhole ⊢
    rw [hposition, hspsc, horigin]
    exact hwhole
  · intro hl
    rw [horigin]
    rcases hgives.accepted with hsame | ⟨-, -, hsome⟩
    · rw [hsame]
      exact h.sent (hlive hl)
    · exact hsome
  · intro hl hfin
    rcases hgives.finished with hsame | ⟨-, hend⟩
    · rcases hgives.accepted with haccepted | ⟨-, hopen, -⟩
      · have hend := h.finished (hlive hl) (hsame ▸ hfin)
        unfold AtEnd at hend ⊢
        rw [horigin, haccepted]
        exact hend
      · rw [hopen] at hfin
        cases hfin
    · exact hend
  · intro hrunning
    rw [hpipeline] at hrunning
    obtain ⟨hsame, hrest⟩ := h.playing hrunning
    refine ⟨by rw [hpulled, hgives.delivered, hsame], ?_⟩
    intro hend
    rw [hended] at hend
    obtain ⟨hfin, hall⟩ := hrest hend
    rcases hgives.accepted with haccepted | ⟨hopen, -⟩
    · refine ⟨?_, by rw [hgives.delivered, haccepted, hall]⟩
      rcases hgives.finished with hsame | ⟨hup, -⟩
      · exact hsame.trans hfin
      · exact hup
    · rw [hfin] at hopen
      cases hopen

end Decoder

/-! ## The owner -/

section Owner

variable {src : Source σ} {x x' : Player σ}

theorem consumerStep_delivered (s : Spsc) : s.delivered <+: (consumerStep s).delivered := by
  unfold consumerStep
  split
  · exact List.prefix_rfl
  · exact List.prefix_rfl
  · exact List.prefix_rfl
  · exact List.prefix_rfl
  · simp only
    split
    · exact List.prefix_rfl
    · exact List.prefix_append _ _

/-- A pull that is under way touches neither the reservoir nor what was handed on. -/
theorem consumerStep_loads {s : Spsc} (h : (consumerStep s).consumer ≠ .idle) :
    consumerStep s = { s with consumer := (consumerStep s).consumer } := by
  unfold consumerStep at h ⊢
  split
  · rfl
  · rfl
  · rfl
  · rfl
  · rename_i hc
    simp only [hc] at h ⊢
    split
    · rfl
    · rename_i hdone
      rw [if_neg hdone] at h
      exact absurd rfl h

/-- A pull that raises the flag for the end has delivered everything that was accepted. -/
theorem raised_all {s : Spsc} (h : Linked s) {done : PullDone} (hlast : s.pulls.getLast? = some done)
    (heos : RaisesEos done) : s.r.finished = true ∧ s.delivered = s.accepted := by
  obtain ⟨w, r, hf⟩ := h.queue
  obtain ⟨r₀, hh, hunder⟩ := h.history
  have hchannels : 0 < r₀.format.numChannels := by
    rw [← history_format hh]
    exact hf.channels
  obtain ⟨before, hsplit⟩ := List.getLast?_eq_some_iff.mp hlast
  have hmem : done ∈ s.pulls := by
    rw [hsplit]
    exact List.mem_append_right _ List.mem_cons_self
  obtain ⟨hfin, hall⟩ := ((endOfStream_of_history hh hchannels hunder).raised done hmem).mp heos
  obtain ⟨hup, haccepted⟩ := hh.ended done hmem hfin
  refine ⟨hup, ?_⟩
  rw [hh.delivered, hsplit, deliveredAfter_snoc, hall, haccepted]

theorem pulling_live (hs : Sound src x) {owned : Buffer} (ho : x.owner = .pulling owned) :
    x.pipeline.state = .running ∧ Live x := by
  obtain ⟨hrunning, -⟩ := hs.control.stands ho
  refine ⟨hrunning, ?_, .inl (hs.control.opened hrunning (by simp [ho]))⟩
  exact Bool.eq_true_of_not_eq_false (hs.control.on (by simp [ho]))

/-- What a pull that returns has delivered. -/
theorem release_spec (hs : Sound src x) (h : Streams src x) {owned : Buffer}
    (ho : x.owner = .pulling owned) {done : PullDone}
    (hlast : (consumerStep x.spsc).pulls.getLast? = some done) :
    x.pulled ++ (consumerStep x.spsc).delivered.drop x.spsc.delivered.length =
        (consumerStep x.spsc).delivered ∧
      (consumerStep x.spsc).delivered <+: x.spsc.accepted ∧
      ((x.ended || decide (done.pulled.flags &&& EAF_FRAME_EOS ≠ 0)) = true →
        x.spsc.r.finished = true ∧ (consumerStep x.spsc).delivered = x.spsc.accepted) := by
  obtain ⟨hrunning, hlive⟩ := pulling_live hs ho
  have hlinked := linked_step (hs.linked hlive) .consumer
  obtain ⟨hpulled, hend⟩ := h.playing hrunning
  have hmore := consumerStep_delivered x.spsc
  have haccepted : (consumerStep x.spsc).accepted = x.spsc.accepted := by rw [consumerStep_frame]
  have hfinished : (consumerStep x.spsc).r.finished = x.spsc.r.finished := by
    rw [consumerStep_frame]
  have horder : (consumerStep x.spsc).delivered <+: x.spsc.accepted := by
    obtain ⟨w, r, hf⟩ := hlinked.queue
    have htake := hf.order
    simp only [spscStep] at htake
    rw [htake, haccepted]
    exact List.take_prefix _ _
  refine ⟨?_, horder, ?_⟩
  · obtain ⟨frames, heq⟩ := hmore
    rw [hpulled, ← heq, List.drop_left]
  · intro hor
    rcases Bool.or_eq_true_iff.mp hor with hbefore | hnow
    · obtain ⟨hfin, hall⟩ := hend hbefore
      refine ⟨hfin, horder.eq_of_length_le ?_⟩
      rw [← hall]
      exact hmore.length_le
    · have heos : done.pulled.flags &&& EAF_FRAME_EOS ≠ 0 := of_decide_eq_true hnow
      obtain ⟨hfin, hall⟩ := raised_all hlinked hlast heos
      rw [← hfinished, ← haccepted]
      exact ⟨hfin, hall⟩

theorem releases_keeps (hs : Sound src x) (h : Streams src x) {owned : Buffer}
    (ho : x.owner = .pulling owned) {done : PullDone}
    (hlast : (consumerStep x.spsc).pulls.getLast? = some done) :
    Streams src { x with
      spsc := consumerStep x.spsc
      owner := .waking owned done.pulled
      events := x.events ++
        [.pull ((consumerStep x.spsc).delivered.drop x.spsc.delivered.length) done.pulled.flags]
      pulled := x.pulled ++ (consumerStep x.spsc).delivered.drop x.spsc.delivered.length
      ended := x.ended || done.pulled.flags &&& EAF_FRAME_EOS ≠ 0 } := by
  obtain ⟨hrunning, hlive⟩ := pulling_live hs ho
  obtain ⟨hpulled, horder, hend⟩ := release_spec hs h ho hlast
  rw [hpulled]
  obtain ⟨k, hreads, hsent⟩ := h.sent hlive
  have hframe := consumerStep_frame x.spsc
  have hdecoder := h.decoder
  have hfinished := h.finished hlive
  refine {
    resets := ?_
    started := ?_
    order := ⟨k, hreads, horder.trans hsent⟩
    last := ?_
    completed := fun hr hc => Bool.or_eq_true_iff.mpr (.inl (h.completed hr hc))
    decoder := ?_
    opening := nofun
    sent := ?_
    finished := ?_
    playing := ?_ }
  · intro decoder gate hmem
    rcases List.mem_append.mp hmem with hold | hnew
    · exact h.resets decoder gate hold
    · simp at hnew
  · intro sought origin hstart
    apply h.started sought origin
    simpa [lastStart, List.filterMap_append] using hstart
  · intro hor
    obtain ⟨hfin, hall⟩ := hend hor
    obtain ⟨j, hr, he, haccepted⟩ := hfinished hfin
    exact ⟨j, hr, he, hall.trans haccepted⟩
  · rw [hframe]
    exact hdecoder
  · rw [hframe]
    exact fun _ => ⟨k, hreads, hsent⟩
  · rw [hframe]
    exact fun _ => hfinished
  · intro _
    refine ⟨rfl, ?_⟩
    intro hor
    obtain ⟨hfin, hall⟩ := hend hor
    have haccepted : (consumerStep x.spsc).accepted = x.spsc.accepted := by rw [hframe]
    have hup : (consumerStep x.spsc).r.finished = x.spsc.r.finished := by rw [hframe]
    exact ⟨hup.trans hfin, hall.trans haccepted.symm⟩

/-- The reservoir after a reset has nothing to do with the source. -/
theorem resets_keeps (hq : Quiescent x.decoder x.gate) (hstill : x.pipeline.state ≠ .running)
    (htied : x.owner.tied = false) (h : Streams src x) : Streams src (resetReservoir x) := by
  refine {
    resets := ?_
    started := ?_
    order := h.order
    last := h.last
    completed := h.completed
    decoder := ?_
    opening := ?_
    sent := fun _ => ⟨0, nofun, List.nil_prefix⟩
    finished := fun _ hfin => nomatch hfin
    playing := fun hrunning => absurd hrunning hstill }
  · intro decoder gate hmem
    rcases List.mem_append.mp hmem with hold | hnew
    · exact h.resets decoder gate hold
    · obtain ⟨rfl, rfl⟩ : decoder = x.decoder ∧ gate = x.gate := by simpa using hnew
      exact hq
  · intro sought origin hstart
    apply h.started sought origin
    simpa [lastStart, resetReservoir, List.filterMap_append] using hstart
  · have hsame : (resetReservoir x).decoder = x.decoder := rfl
    unfold decoderStreams
    rw [hsame]
    rcases hq with hnone | ⟨hparked, hgate⟩
    · rw [hnone]
      trivial
    · have hshut : (resetReservoir x).gate = false := hgate
      cases hd : x.decoder with
      | gateLoad | gateQuit | gateTake =>
        intro hopen
        rw [hshut] at hopen
        cases hopen
      | _ =>
        rw [hd] at hparked
        cases hparked
  · exact fun caller ho => absurd ho (Owner.untied htied caller)

/-- A start on a fresh reservoir. -/
theorem starts_keeps (hs : Sound src x) (h : Streams src x) {sought : Option UInt64}
    {caller : Caller} {p : Pipeline} {r : Reservoir} (ho : x.owner = .launching sought caller)
    (hspsc : x.spsc = spscStart (reservoirReset r) 0) (hcompleted : p.completed = false) :
    Streams src { x with
      pipeline := p
      owner := .opening caller
      events := x.events ++ [.start sought x.position]
      origin := x.position, pulled := [], ended := false } := by
  obtain ⟨hparked, hgate, -, -, hsought⟩ := hs.control.stands ho
  have haccepted : x.spsc.accepted = [] := by rw [hspsc]; rfl
  have hdelivered : x.spsc.delivered = [] := by rw [hspsc]; rfl
  have hfinished : x.spsc.r.finished = false := by rw [hspsc]; rfl
  refine {
    resets := ?_
    started := ?_
    order := ⟨0, nofun, List.prefix_rfl⟩
    last := nofun
    completed := ?_
    decoder := ?_
    opening := fun _ _ => ⟨⟨0, nofun, rfl, by rw [haccepted]; rfl⟩, hfinished⟩
    sent := fun _ => ⟨0, nofun, by rw [haccepted]; exact List.prefix_rfl⟩
    finished := ?_
    playing := fun _ => ⟨hdelivered.symm, nofun⟩ }
  · intro decoder gate hmem
    rcases List.mem_append.mp hmem with hold | hnew
    · exact h.resets decoder gate hold
    · simp at hnew
  · intro sought' origin hstart
    obtain ⟨rfl, rfl⟩ : sought = sought' ∧ x.position = origin := by
      simpa [lastStart, List.filterMap_append] using hstart
    exact ⟨rfl, hsought⟩
  · intro _ hc
    rw [hcompleted] at hc
    cases hc
  · unfold decoderStreams
    cases hd : x.decoder with
    | gateLoad | gateQuit | gateTake =>
      intro hopen
      rw [hgate] at hopen
      cases hopen
    | _ =>
      rw [hd] at hparked
      cases hparked
  · intro _ hfin
    rw [hfinished] at hfin
    cases hfin

/-- The owner lets the decoder at a fresh reservoir. -/
theorem opens_keeps (hs : Sound src x) (h : Streams src x) {caller : Caller}
    (ho : x.owner = .opening caller) :
    Streams src { x with gate := true, owner := .openGive caller } := by
  have hparked : x.decoder.parked = true := (hs.control.stands ho).1
  have hfresh := h.opening caller ho
  have hlive : x.initialized = true → Live x := fun hinit => ⟨hinit, .inr ⟨caller, ho⟩⟩
  refine { h with
    decoder := ?_
    opening := nofun
    sent := fun hl => h.sent (hlive hl.1)
    finished := fun hl => h.finished (hlive hl.1) }
  unfold decoderStreams
  cases hd : x.decoder with
  | gateLoad | gateQuit | gateTake => exact fun _ => hfresh
  | _ =>
    rw [hd] at hparked
    cases hparked

/-- A request to quit asks nothing of the decoder. -/
theorem quits_streams (owner : Owner) (h : decoderStreams src x) :
    decoderStreams src { x with quit := true, owner := owner } := by
  unfold decoderStreams at h ⊢
  cases hd : x.decoder with
  | loop ended =>
    cases ended with
    | false => exact .inl rfl
    | true => trivial
  | _ =>
    rw [hd] at h
    exact h

theorem owns_keeps (hm : Owns src x x') (hs : Sound src x) (h : Streams src x) :
    Streams src x' := by
  cases hm with
  | aside _ _ _ _ htied _ _ hrunning hcompleted _ =>
    exact { h with
      completed := fun hr hc => (hcompleted hc).elim (h.completed (hrunning hr)) id
      opening := fun caller ho => absurd ho (Owner.untied htied caller)
      sent := fun hl => h.sent (hl.before (Owner.untied htied) rfl rfl)
      finished := fun hl => h.finished (hl.before (Owner.untied htied) rfl rfl)
      playing := fun hr => h.playing (hrunning hr) }
  | queues => exact { h with }
  | prepares hnone _ htied =>
    refine { h with
      decoder := ?_
      sent := fun hl => absurd hl (not_live rfl htied)
      finished := fun hl => absurd hl (not_live rfl htied) }
    unfold decoderStreams
    simp only [hnone]
  | creates ho =>
    have hgate : x.gate = false := (hs.control.stands ho).2.1
    refine { h with
      decoder := ?_
      opening := nofun
      sent := fun hl => h.sent (hl.before nofun rfl rfl)
      finished := fun hl => h.finished (hl.before nofun rfl rfl) }
    intro hopen
    rw [show x.gate = true from hopen] at hgate
    cases hgate
  | resets hq hstill htied => exact resets_keeps hq hstill htied h
  | starts ho hspsc hcompleted => exact starts_keeps hs h ho hspsc hcompleted
  | aborts =>
    exact { h with
      decoder := quits_streams _ h.decoder
      opening := nofun
      sent := fun hl => h.sent (hl.before nofun rfl rfl)
      finished := fun hl => h.finished (hl.before nofun rfl rfl) }
  | quits =>
    exact { h with
      decoder := quits_streams _ h.decoder
      opening := nofun
      sent := fun hl => h.sent (hl.before nofun rfl rfl)
      finished := fun hl => h.finished (hl.before nofun rfl rfl) }
  | gives => exact { h with }
  | joins => exact { h with decoder := trivial }
  | opens ho => exact opens_keeps hs h ho
  | seeks position ho =>
    have hnone : x.decoder = .none := (hs.control.stands ho).1
    refine { h with decoder := ?_, opening := ?_ }
    · unfold decoderStreams
      simp only [hnone]
    · intro caller hopening
      rw [show x.owner = .opening caller from hopening] at ho
      cases ho
  | pulls ho _ hvalid =>
    have hidle := hs.control.unpulled (by rw [ho]; rfl)
    rw [pull_called hidle hvalid]
    exact { h with
      opening := nofun
      sent := fun hl => h.sent (hl.before nofun rfl rfl)
      finished := fun hl => h.finished (hl.before nofun rfl rfl) }
  | refuses =>
    refine { h with resets := ?_, started := ?_ }
    · intro decoder gate hmem
      rcases List.mem_append.mp hmem with hold | hnew
      · exact h.resets decoder gate hold
      · simp at hnew
    · intro sought origin hstart
      apply h.started sought origin
      simpa [lastStart, List.filterMap_append] using hstart
  | loads _ hbusy =>
    rw [consumerStep_loads hbusy]
    exact { h with }
  | releases ho _ hlast => exact releases_keeps hs h ho hlast
  | wakes =>
    exact { h with
      opening := nofun
      sent := fun hl => h.sent (hl.before nofun rfl rfl)
      finished := fun hl => h.finished (hl.before nofun rfl rfl) }
  | detaches =>
    exact { h with
      opening := nofun
      sent := fun hl => Bool.noConfusion hl.1
      finished := fun hl => Bool.noConfusion hl.1 }

end Owner

/-! ## Runs -/

section Runs

variable {src : Source σ} {x : Player σ}

/-- What `eaf_player_init` leaves. -/
theorem init_spec {position : σ} {pipeline : Pipeline} {volume : Option Nat} {volumes : List Nat}
    {gains : List Int32} {hal : Rc}
    (h : playerInit src position pipeline volume volumes gains hal = .ok x) :
    (pipeline.state = .configured ∨ pipeline.state = .stopped) ∧ x.pipeline = pipeline ∧
      x.events = [] ∧ x.pulled = [] ∧ x.ended = false ∧ x.decoder = .none ∧ x.owner = .idle ∧
      x.gate = false := by
  unfold playerInit at h
  simp only at h
  split at h
  · cases h
  · rename_i hrc
    split at h
    · cases h
    · cases h
      refine ⟨?_, rfl, rfl, rfl, rfl, rfl, rfl, rfl⟩
      by_contra hstate
      rw [not_or] at hstate
      unfold initRc at hrc
      simp only at hrc
      split at hrc
      · exact absurd (by decide) hrc
      · exact absurd (by decide) hrc

theorem streams_init {position : σ} {pipeline : Pipeline} {volume : Option Nat} {volumes : List Nat}
    {gains : List Int32} {hal : Rc}
    (h : playerInit src position pipeline volume volumes gains hal = .ok x) : Streams src x := by
  obtain ⟨hstate, hpipeline, hevents, hpulled, hended, hdecoder, howner, hgate⟩ := init_spec h
  have hstill : x.pipeline.state ≠ .running := by
    rw [hpipeline]
    rcases hstate with hs | hs
    · simp [hs]
    · simp [hs]
  have hlive : ¬ Live x := not_live hgate (by rw [howner]; rfl)
  refine {
    resets := by simp [hevents]
    started := by simp [hevents, lastStart]
    order := ⟨0, nofun, by rw [hpulled]; exact List.prefix_rfl⟩
    last := by simp [hended]
    completed := fun hr => absurd hr hstill
    decoder := by unfold decoderStreams; rw [hdecoder]; trivial
    opening := by simp [howner]
    sent := fun hl => absurd hl hlive
    finished := fun hl => absurd hl hlive
    playing := fun hr => absurd hr hstill }

/-- Every run of a player keeps what the player rests on. -/
theorem playerRun_streams {sizeMax : Nat} {storage : List Int32} {capacity : UInt32} {fmt : Format}
    {highWatermark : UInt32} {res : Reservoir}
    (h : reservoirInit sizeMax storage capacity fmt highWatermark = .ok res)
    (hstorage : capacity.toNat * fmt.numChannels ≤ storage.length) (env : PipelineEnv) (mem : Mem)
    {calls : List PipelineCall} (hcalls : ∀ call ∈ calls, KeepsRing res call) {position : σ}
    {volume : Option Nat} {volumes : List Nat} {gains : List Int32} {hal : Rc}
    (hplayer : playerInit src position (afterPipelineCalls env (zeroPipeline res mem) calls) volume
      volumes gains hal = .ok x) (actions : List Action) :
    Sound src (playerRun src env x actions) ∧ Streams src (playerRun src env x actions) := by
  have hsuited := suited_calls h hstorage env mem hcalls (init_spec hplayer).1
  exact playerRun_keeps (fun _ _ hs hi hd => decodes_keeps hd hs hi)
    (fun _ _ hs hi hm => owns_keeps hm hs hi) env (sound_init hsuited hplayer)
    (streams_init hplayer) actions

/-- For every source, pipeline and reservoir, in every interleaving, whatever fails. -/
theorem player_lossless {sizeMax : Nat} {storage : List Int32} {capacity : UInt32} {fmt : Format}
    {highWatermark : UInt32} {res : Reservoir}
    (h : reservoirInit sizeMax storage capacity fmt highWatermark = .ok res)
    (hstorage : capacity.toNat * fmt.numChannels ≤ storage.length) (env : PipelineEnv) (mem : Mem)
    {calls : List PipelineCall} (hcalls : ∀ call ∈ calls, KeepsRing res call) {position : σ}
    {volume : Option Nat} {volumes : List Nat} {gains : List Int32} {hal : Rc}
    (hplayer : playerInit src position (afterPipelineCalls env (zeroPipeline res mem) calls) volume
      volumes gains hal = .ok x) (actions : List Action) :
    Lossless src (playerRun src env x actions) :=
  (playerRun_streams h hstorage env mem hcalls hplayer actions).2.toLossless

end Runs

/-! ## Six frames, and a seek -/

/-- A source that yields its six frames by threes. -/
def sixFrames : Source Nat where
  ops := true
  format := ⟨48000, 1, 1⟩
  totalFrames := 6
  read := fun n => (⟨EAF_OK, if n < 6 then 3 else 0, fun i => Int32.ofNat (n + i)⟩, n + 3)
  seek := fun _ frame => (EAF_OK, frame.toNat)

/-- A ring of four frames. -/
def fourFrames : Reservoir where
  storage := [0, 0, 0, 0]
  capacity := 4
  highWatermark := 3
  backpressureLow := 2
  backpressureHigh := 4
  format := ⟨48000, 1, 1⟩
  readCursor := 0
  writeCursor := 0
  finished := false
  state := .prebuffering
  underruns := 0
  framesRead := 0
  last := [0, 0, 0, 0]
  wakeProducer := false

theorem fourFrames_init : reservoirInit 0xFFFFFFFF [0, 0, 0, 0] 4 ⟨48000, 1, 1⟩ 3 = .ok fourFrames := by
  decide +kernel

/-- Starts the player and steps it twice, while the decoder holds a part of what it has read; then
the first join of a seek to the last three frames fails, and the next one does not. -/
def seekActions : List Action :=
  [Action.call .start] ++ List.replicate 4 (Action.owner EAF_OK) ++
    List.replicate 40 Action.decoder ++
    ([Action.call .step] ++ List.replicate 9 (Action.owner EAF_OK)) ++
    ([Action.call .step] ++ List.replicate 9 (Action.owner EAF_OK)) ++
    [Action.decoder, Action.call (.seek 3)] ++
    [Action.owner EAF_OK, Action.owner EAF_OK, Action.owner EAF_STATE, Action.call (.seek 3)] ++
    List.replicate 20 Action.decoder ++ List.replicate 10 (Action.owner EAF_OK) ++
    [Action.call .start] ++ List.replicate 4 (Action.owner EAF_OK) ++
    List.replicate 60 Action.decoder ++
    (List.replicate 4 ([Action.call .step] ++ List.replicate 9 (Action.owner EAF_OK) ++
      List.replicate 20 Action.decoder)).flatten

def monoCalls : List PipelineCall := [.init ⟨true, true, true, true, []⟩, .configure 1]

def sixPlayer : Player Nat :=
  (playerInit sixFrames 0 (afterPipelineCalls (returning EAF_OK) (zeroPipeline fourFrames fun _ => [0])
    monoCalls) none [] [] EAF_OK).toOption.get rfl

theorem player_lossless_seek :
    Lossless sixFrames (playerRun sixFrames (returning EAF_OK) sixPlayer seekActions) ∧
      (playerRun sixFrames (returning EAF_OK) sixPlayer seekActions).pulled = [3, 4, 5] := by
  have hcalls : ∀ call ∈ monoCalls, KeepsRing fourFrames call := by simp [monoCalls, KeepsRing]
  have hplayer : playerInit sixFrames 0 (afterPipelineCalls (returning EAF_OK)
    (zeroPipeline fourFrames fun _ => [0]) monoCalls) none [] [] EAF_OK = .ok sixPlayer := rfl
  refine ⟨?_, by decide +kernel⟩
  exact player_lossless fourFrames_init (by decide) (returning EAF_OK) (fun _ => [0]) hcalls hplayer
    seekActions

end EmbeddedAudio.Playback
