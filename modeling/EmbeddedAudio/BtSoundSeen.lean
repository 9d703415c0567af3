-- What the decode task of the Bluetooth speaker knows of the link. The callback
-- changes the status before it tells anybody, and the task takes its
-- notification before it looks, so that no event is lost on a task that is there.
import EmbeddedAudio.BtSoundKept

namespace EmbeddedAudio.BtSound

open Bt BtDecoder

/-- What `decode_entry` looks at of the link. -/
def linkOf (a : A2dp) : Bool × Bool := (a.binding.status.connected, a.binding.status.streaming)

/-- What the decode task last saw of the link. At first there is no link. -/
def lookedAt (s : Sound) : Bool × Bool := s.seen.getD (false, false)

/-! ## What a step leaves alone -/

/-- A step from `s` to `t` that neither changes nor tells anything of the link, and at which the
decode task does not look at it. -/
structure Beside (s t : Sound) : Prop where
  link : linkOf t.a2dp = linkOf s.a2dp
  heard : t.a2dp.notified = s.a2dp.notified
  telling : t.telling = s.telling
  seen : t.seen = s.seen
  was : t.wasConnected = s.wasConnected
  notified : s.notified = true → t.notified = true
  started : s.decode ≠ .starting → t.decode ≠ .starting
  woken : s.decode = .woken → t.decode = .woken

section Beside

variable {s t u : Sound} {codec : Codec}

theorem Beside.refl (s : Sound) : Beside s s := ⟨rfl, rfl, rfl, rfl, rfl, id, id, id⟩

theorem Beside.trans (h : Beside s t) (h' : Beside t u) : Beside s u where
  link := h'.link.trans h.link
  heard := h'.heard.trans h.heard
  telling := h'.telling.trans h.telling
  seen := h'.seen.trans h.seen
  was := h'.was.trans h.was
  notified hs := h'.notified (h.notified hs)
  started hs := h'.started (h.started hs)
  woken hs := h'.woken (h.woken hs)

theorem beside_wakeDecode (s : Sound) : Beside s (wakeDecode s) := by
  unfold wakeDecode
  split
  · exact Beside.refl s
  · exact ⟨rfl, rfl, rfl, rfl, rfl, fun _ => rfl, id, id⟩

theorem audioDataCb_link (a : A2dp) (buf : AudioBuff) :
    linkOf (audioDataCb a buf) = linkOf a ∧ (audioDataCb a buf).notified = a.notified := by
  unfold audioDataCb
  split
  · split
    · exact ⟨rfl, rfl⟩
    · unfold sbcReceive
      split <;> exact ⟨rfl, rfl⟩
  · exact ⟨rfl, rfl⟩

theorem producerStep_link (a : A2dp) :
    linkOf (producerStep a) = linkOf a ∧ (producerStep a).notified = a.notified := by
  unfold producerStep
  split
  · exact ⟨rfl, rfl⟩
  · split <;> exact ⟨rfl, rfl⟩
  · exact ⟨rfl, rfl⟩
  · exact ⟨rfl, rfl⟩

theorem consumerStep_link (a : A2dp) :
    linkOf (consumerStep a) = linkOf a ∧ (consumerStep a).notified = a.notified := by
  unfold consumerStep
  split
  · split <;> exact ⟨rfl, rfl⟩
  · exact ⟨rfl, rfl⟩
  · exact ⟨rfl, rfl⟩

/-! ### The decode task between two looks -/

/-- The task goes on to `decode`. -/
theorem beside_goes (hwoken : s.decode ≠ .woken) {decode : Decode} (hdecode : decode ≠ .starting)
    (decoder : Decoder) : Beside s { s with decoder := decoder, decode := decode } :=
  ⟨rfl, rfl, rfl, rfl, rfl, id, fun _ => hdecode, fun hs => absurd hs hwoken⟩

theorem beside_callWrite (s : Sound) : Beside s (callWrite s) :=
  ⟨rfl, rfl, rfl, rfl, rfl, id, id, id⟩

theorem beside_decoded (hwoken : s.decode ≠ .woken) (before : UInt32) (result : Rc × Decoder) :
    Beside s (decoded s before result) := by
  unfold decoded
  split
  · exact beside_goes hwoken (by simp) result.2
  · exact (beside_goes hwoken (by simp) result.2).trans (beside_callWrite _)

theorem beside_goOn (hwoken : s.decode ≠ .woken) (before : UInt32) :
    Beside s (goOn codec s before) := by
  have hcleared : Beside s { s with decoder := { s.decoder with pending := 0, sent := 0 } } :=
    ⟨rfl, rfl, rfl, rfl, rfl, id, id, id⟩
  unfold goOn
  dsimp only
  split
  · apply hcleared.trans
    apply beside_decoded
    exact hwoken
  · exact beside_goes hwoken (by simp) _

theorem beside_writeStep (s : Sound) {next : Sound → Sound}
    (hnext : ∀ s', s'.decode = s.decode → Beside s' (next s')) :
    Beside s (writeStep codec s next) := by
  have hgoes : ∀ d : Decoder,
      Beside s { s with spsc := Core.producerStep s.spsc, decoder := d } :=
    fun _ => ⟨rfl, rfl, rfl, rfl, rfl, id, id, id⟩
  unfold writeStep
  dsimp only
  split
  · exact hgoes s.decoder
  · exact (hgoes _).trans (hnext _ rfl)

theorem beside_popStep (hwoken : s.decode ≠ .woken) (before : UInt32) :
    Beside s (popStep codec s before) := by
  obtain ⟨hlink, hheard⟩ := consumerStep_link s.a2dp
  have hpops : Beside s { s with a2dp := consumerStep s.a2dp } :=
    ⟨hlink, hheard, rfl, rfl, rfl, id, id, id⟩
  unfold popStep
  dsimp only
  split
  · split
    · exact beside_goes hwoken (by simp) s.decoder
    · exact hpops
  · exact hpops
  · apply hpops.trans
    apply beside_decoded
    exact hwoken

/-- The steps of the decode task, but for the ones that take a notification and look. -/
theorem beside_decodeStep (hwaiting : s.decode ≠ .waiting) (hwoken : s.decode ≠ .woken) :
    Beside s (decodeStep codec s) := by
  unfold decodeStep
  rcases hdecode : s.decode with _ | _ | _ | _ | before | before | before | before | before |
    before | before <;> dsimp only
  · exact beside_goes hwoken (by simp) s.decoder
  · exact absurd hdecode hwaiting
  · exact absurd hdecode hwoken
  · exact beside_goes hwoken (by simp) s.decoder
  · split
    · exact (beside_goes hwoken (by simp) s.decoder).trans (beside_callWrite _)
    · exact beside_goOn hwoken before
  · apply beside_writeStep
    intro s' hs
    have hwoken' : s'.decode ≠ .woken := by
      rw [hs]
      exact hwoken
    split
    · exact beside_goes hwoken' (by simp) s'.decoder
    · exact beside_goOn hwoken' before
  · exact beside_popStep hwoken before
  · apply beside_writeStep
    intro s' hs
    apply beside_goes _ (by simp) s'.decoder
    rw [hs]
    exact hwoken
  · exact beside_goes hwoken (by simp) s.decoder
  · apply beside_goes hwoken _ s.decoder
    split <;> simp
  · apply beside_goes hwoken _ s.decoder
    split <;> simp

theorem beside_outputStep (n : UInt32) (s : Sound) (ok : Bool) : Beside s (outputStep n s ok) := by
  unfold outputStep
  split
  · split
    · exact ⟨rfl, rfl, rfl, rfl, rfl, id, id, id⟩
    · exact Beside.refl s
  · exact ⟨rfl, rfl, rfl, rfl, rfl, id, id, id⟩
  · have hback : Beside s { s with output := .acquiring } :=
      ⟨rfl, rfl, rfl, rfl, rfl, id, id, id⟩
    exact hback.trans (beside_wakeDecode _)

/-! ### What a step does about the link -/

/-- An event that changes the link is told. -/
theorem a2dCb_quiet (b : Binding) (event : A2dEvent) (h : (a2dCb b event).2 = none) :
    (a2dCb b event).1.status.connected = b.status.connected ∧
      (a2dCb b event).1.status.streaming = b.status.streaming := by
  cases event with
  | sepRegState success => exact ⟨rfl, rfl⟩
  | connectionState state peer => cases h
  | audioCfg accepted => cases h
  | audioState started => cases h
  | other => exact ⟨rfl, rfl⟩

theorem onA2d_quiet (a : A2dp) (event : A2dEvent) (h : (a2dCb a.binding event).2 = none) :
    linkOf (onA2d a event) = linkOf a ∧ (onA2d a event).notified = a.notified := by
  obtain ⟨hconnected, hstreaming⟩ := a2dCb_quiet a.binding event h
  refine ⟨Prod.ext hconnected hstreaming, ?_⟩
  show a.notified ++ (a2dCb a.binding event).2.toList = _
  rw [h]
  exact List.append_nil _

/-- A step from `s` to `t`: an event comes, the callback tells it, the decode task takes its
notification, it looks at the link, or none of these. -/
inductive Moves (s t : Sound) : Prop where
  | beside (h : Beside s t)
  | event (heard : t.a2dp.notified ≠ []) (telling : t.telling = true) (seen : t.seen = s.seen)
      (was : t.wasConnected = s.wasConnected) (decode : t.decode = s.decode)
  | tells (h : t = wakeDecode { s with telling := false })
  | takes (h : t = { s with notified := false, decode := .woken })
  | looks (seen : lookedAt t = linkOf s.a2dp) (a2dp : t.a2dp = s.a2dp)
      (was : t.wasConnected = s.a2dp.binding.status.connected) (started : t.decode ≠ .starting)

theorem decodeStep_moves (codec : Codec) (s : Sound) : Moves s (decodeStep codec s) := by
  by_cases hwaiting : s.decode = .waiting
  · unfold decodeStep
    rw [hwaiting]
    dsimp only
    split
    · exact .takes rfl
    · exact .beside (Beside.refl s)
  by_cases hwoken : s.decode = .woken
  · unfold decodeStep
    rw [hwoken]
    refine .looks rfl rfl rfl ?_
    dsimp only
    split <;> simp
  · exact .beside (beside_decodeStep hwaiting hwoken)

theorem soundStep_moves (codec : Codec) (n : UInt32) (s : Sound) (action : Action) :
    Moves s (soundStep codec n s action) := by
  cases action with
  | audioData buf =>
    obtain ⟨hlink, hheard⟩ := audioDataCb_link s.a2dp buf
    unfold soundStep
    dsimp only
    split
    · exact .beside ⟨hlink, hheard, rfl, rfl, rfl, id, id, id⟩
    · exact .beside (Beside.refl s)
  | a2d event =>
    unfold soundStep
    dsimp only
    split
    · rename_i hidle
      cases htold : (a2dCb s.a2dp.binding event).2 with
      | none =>
        obtain ⟨hlink, hheard⟩ := onA2d_quiet s.a2dp event htold
        exact .beside ⟨hlink, hheard, hidle.2.symm, rfl, rfl, id, id, id⟩
      | some notification =>
        refine .event ?_ rfl rfl rfl rfl
        show s.a2dp.notified ++ (a2dCb s.a2dp.binding event).2.toList ≠ []
        rw [htold]
        simp
    · exact .beside (Beside.refl s)
  | callback =>
    show Moves s (callbackStep s)
    unfold callbackStep
    split
    · exact .tells rfl
    · obtain ⟨hlink, hheard⟩ := producerStep_link s.a2dp
      exact .beside ⟨hlink, hheard, rfl, rfl, rfl, id, id, id⟩
  | decode => exact decodeStep_moves codec s
  | output ok => exact .beside (beside_outputStep n s ok)

end Beside

/-! ## Before the first event -/

section Link

variable {s t : Sound} {codec : Codec}

/-- As long as nothing was told, there is no link, and the task saw none. -/
structure Unheard (s : Sound) : Prop where
  quiet : s.a2dp.notified = [] → linkOf s.a2dp = (false, false) ∧ lookedAt s = (false, false)
  was : s.wasConnected = (lookedAt s).1

theorem Beside.lookedAt (h : Beside s t) : lookedAt t = lookedAt s := by
  unfold BtSound.lookedAt
  rw [h.seen]

theorem Unheard.beside (h : Unheard s) (hbeside : Beside s t) : Unheard t := by
  refine ⟨?_, ?_⟩
  · rw [hbeside.heard, hbeside.link, hbeside.lookedAt]
    exact h.quiet
  · rw [hbeside.was, hbeside.lookedAt]
    exact h.was

theorem Unheard.moves (h : Unheard s) (hmoves : Moves s t) : Unheard t := by
  cases hmoves with
  | beside hbeside => exact h.beside hbeside
  | event heard telling seen was decode =>
    refine ⟨fun hnone => absurd hnone heard, ?_⟩
    unfold lookedAt
    rw [was, seen]
    exact h.was
  | tells htells =>
    subst htells
    have htold : Unheard { s with telling := false } := ⟨h.quiet, h.was⟩
    exact htold.beside (beside_wakeDecode _)
  | takes htakes =>
    subst htakes
    exact ⟨h.quiet, h.was⟩
  | looks seen a2dp was started =>
    refine ⟨?_, ?_⟩
    · rw [a2dp, seen]
      exact fun hquiet => ⟨(h.quiet hquiet).1, (h.quiet hquiet).1⟩
    · rw [was, seen]
      rfl

theorem unheard_soundRun (codec : Codec) (h : Unheard s) (n : UInt32) (actions : List Action) :
    Unheard (soundRun codec n s actions) :=
  soundRun_law (I := Unheard) (fun s action hs => hs.moves (soundStep_moves codec n s action)) h
    actions

theorem unheard_startAudio {sizeMax sampleRate : Nat} {frames : UInt32}
    (h : startAudio codec sizeMax sampleRate frames = .ok s) : Unheard s := by
  obtain ⟨-, -, -, -, rfl⟩ := startAudio_ok h
  exact ⟨fun _ => ⟨rfl, rfl⟩, rfl⟩

/-! ## After it -/

/-- The task knows the link, or it is about to be told or to look. -/
structure Knows (s : Sound) : Prop where
  started : s.decode ≠ .starting
  told : lookedAt s = linkOf s.a2dp ∨ s.telling = true ∨ s.notified = true ∨ s.decode = .woken
  was : s.wasConnected = (lookedAt s).1

theorem Knows.beside (h : Knows s) (hbeside : Beside s t) : Knows t := by
  refine ⟨hbeside.started h.started, ?_, ?_⟩
  · rw [hbeside.lookedAt, hbeside.link, hbeside.telling]
    rcases h.told with hlink | htelling | hnotified | hwoken
    · exact .inl hlink
    · exact .inr (.inl htelling)
    · exact .inr (.inr (.inl (hbeside.notified hnotified)))
    · exact .inr (.inr (.inr (hbeside.woken hwoken)))
  · rw [hbeside.was, hbeside.lookedAt]
    exact h.was

theorem Knows.moves (h : Knows s) (hmoves : Moves s t) : Knows t := by
  cases hmoves with
  | beside hbeside => exact h.beside hbeside
  | event heard telling seen was decode =>
    refine ⟨?_, .inr (.inl telling), ?_⟩
    · rw [decode]
      exact h.started
    · unfold lookedAt
      rw [was, seen]
      exact h.was
  | tells htells =>
    subst htells
    -- The task is there, so what was to be told is a notification now.
    unfold wakeDecode
    rw [if_neg h.started]
    exact ⟨h.started, .inr (.inr (.inl rfl)), h.was⟩
  | takes htakes =>
    subst htakes
    exact ⟨by simp, .inr (.inr (.inr rfl)), h.was⟩
  | looks seen a2dp was started =>
    refine ⟨started, .inl ?_, ?_⟩
    · rw [a2dp, seen]
    · rw [was, seen]
      rfl

theorem knows_soundRun (codec : Codec) (h : Knows s) (n : UInt32) (actions : List Action) :
    Knows (soundRun codec n s actions) :=
  soundRun_law (I := Knows) (fun s action hs => hs.moves (soundStep_moves codec n s action)) h
    actions

end Link

/-- No event of the link is lost on the decode task. When it is there before the first event,
whatever happens after, it knows the link whenever nothing is on its way to it. -/
theorem link_is_seen {codec : Codec} {sizeMax sampleRate : Nat} {frames : UInt32} {start : Sound}
    (h : startAudio codec sizeMax sampleRate frames = .ok start) (n : UInt32)
    (before after : List Action) (hstarted : (soundRun codec n start before).decode ≠ .starting)
    (hunheard : (soundRun codec n start before).a2dp.notified = []) :
    let s := soundRun codec n start (before ++ after)
    s.telling = false → s.notified = false → s.decode ≠ .woken →
      lookedAt s = linkOf s.a2dp ∧ s.wasConnected = s.a2dp.binding.status.connected := by
  intro s htelling hnotified hwoken
  have hfresh := unheard_soundRun codec (unheard_startAudio h) n before
  obtain ⟨hlink, hlooked⟩ := hfresh.quiet hunheard
  have hknows : Knows s := by
    show Knows (soundRun codec n start (before ++ after))
    rw [soundRun_append]
    exact knows_soundRun codec ⟨hstarted, .inl (hlooked.trans hlink.symm), hfresh.was⟩ n after
  have hsees : lookedAt s = linkOf s.a2dp := by
    rcases hknows.told with hsees | htold | htold | htold
    · exact hsees
    · exact absurd htold (by simp [htelling])
    · exact absurd htold (by simp [hnotified])
    · exact absurd htold hwoken
  refine ⟨hsees, ?_⟩
  rw [hknows.was, hsees]
  rfl

theorem link_is_seen_connected :
    let after : List Action := [.a2d (.connectionState .connected [1]), .callback, .decode, .decode]
    let s := soundRun twoOfEach 1 smallSpeaker ([.decode] ++ after)
    lookedAt s = linkOf s.a2dp ∧ s.wasConnected = s.a2dp.binding.status.connected :=
  @link_is_seen twoOfEach 0xFFFFFFFF 44100 4 smallSpeaker rfl 1 [.decode] _ (by decide +kernel)
    rfl rfl rfl (by decide +kernel)

end EmbeddedAudio.BtSound
