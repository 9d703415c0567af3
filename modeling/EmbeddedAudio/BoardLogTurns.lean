-- The threads of the event history in every order of their steps: the flag keeps the lines whole,
-- and nobody waits for it.
import EmbeddedAudio.BoardLog

namespace EmbeddedAudio.BoardLog

open LastRing
open Sendspin (decimal)

/-! ## Where the ring stands -/

/-- The cells have the last lines of the history. -/
structure Ring (lines : List (Option Line)) (next count : Nat) (history : List Line) : Prop where
  keeps : Keeps lines next count (history.map some)
  width : lines.length = LOG_LINES

/-- The thread has the flag. -/
def Thread.inside : Thread → Bool
  | .copy _ | .copying _ | .advance _ | .grow _ | .release => true
  | .fill .. | .releaseRead .. | .torn => true
  | .idle | .tryWrite _ | .drop | .tryRead .. => false

/-- The message of the thread is neither in the history nor dropped. -/
def Thread.writing : Thread → Bool
  | .tryWrite _ | .drop | .copy _ | .copying _ | .advance _ | .grow _ => true
  | _ => false

/-- What a thread with the flag has made of the ring, or has read of it. -/
def Stage (shared : Shared) (history : List Line) : Thread → Prop
  | .copy _ | .release => Ring shared.lines shared.next shared.count history
  | .copying _ => ∃ lines, Ring lines shared.next shared.count history ∧
      shared.lines = lines.set shared.next none
  | .advance line => ∃ lines, Ring lines shared.next shared.count history ∧
      shared.lines = lines.set shared.next (some line)
  | .grow line => ∃ lines next, Ring lines next shared.count history ∧
      shared.lines = lines.set next (some line) ∧ shared.next = (next + 1) % LOG_LINES
  | .fill capacity dropped i text => Ring shared.lines shared.next shared.count history ∧
      i ≤ shared.count ∧ fillLines capacity ((recent history).drop i) text =
        page capacity dropped history
  | .releaseRead capacity dropped text => Ring shared.lines shared.next shared.count history ∧
      text = page capacity dropped history
  | _ => False

/-- One thread at most has the flag, and the ring is as that thread has left it. -/
structure Guarded (shared : Shared) (threads : List Thread) (holder : Option Nat)
    (history : List Line) : Prop where
  inside : ∀ t thread, threads[t]? = some thread → (thread.inside = true ↔ holder = some t)
  lock : shared.lock = holder.isSome
  free : holder = none → Ring shared.lines shared.next shared.count history
  stage : ∀ t thread, threads[t]? = some thread → holder = some t → Stage shared history thread

section Guarded

variable {shared shared' : Shared} {threads : List Thread} {holder : Option Nat}
  {history history' : List Line} {t : Nat} {thread thread' : Thread}

/-- The threads after one has gone on. -/
theorem getElem?_set_cases {u : Nat} {thread'' : Thread}
    (h : (threads.set t thread')[u]? = some thread'') :
    u = t ∧ thread'' = thread' ∨ u ≠ t ∧ threads[u]? = some thread'' := by
  by_cases hu : u = t
  · rw [hu, List.getElem?_set] at h
    simp only [if_true] at h
    split at h
    · exact .inl ⟨hu, (Option.some.inj h).symm⟩
    · exact absurd h.symm (Option.some_ne_none _)
  · rw [List.getElem?_set_ne (Ne.symm hu)] at h
    exact .inr ⟨hu, h⟩

/-- A step without the flag. -/
theorem Guarded.outside (h : Guarded shared threads holder history) (ht : threads[t]? = some thread)
    (hout : thread.inside = false) (hout' : thread'.inside = false)
    (hlines : shared'.lines = shared.lines) (hnext : shared'.next = shared.next)
    (hcount : shared'.count = shared.count) (hlock : shared'.lock = shared.lock) :
    Guarded shared' (threads.set t thread') holder history := by
  have hnot : holder ≠ some t := by
    intro hheld
    rw [← h.inside t thread ht, hout] at hheld
    exact Bool.noConfusion hheld
  refine ⟨?_, ?_, ?_, ?_⟩
  · intro u other hu
    rcases getElem?_set_cases hu with ⟨rfl, rfl⟩ | ⟨-, hold⟩
    · rw [hout']
      exact ⟨fun hfalse => Bool.noConfusion hfalse, fun hheld => absurd hheld hnot⟩
    · exact h.inside u other hold
  · rw [hlock, h.lock]
  · rw [hlines, hnext, hcount]
    exact h.free
  · intro u other hu hheld
    rcases getElem?_set_cases hu with ⟨rfl, -⟩ | ⟨-, hold⟩
    · exact absurd hheld hnot
    · have hstage := h.stage u other hold hheld
      unfold Stage at hstage ⊢
      rw [hlines, hnext, hcount]
      exact hstage

/-- The flag was clear, and the thread sets it. -/
theorem Guarded.enter (h : Guarded shared threads holder history) (hclear : shared.lock = false)
    (hin : thread'.inside = true)
    (hstage : Ring shared.lines shared.next shared.count history →
      Stage { shared with lock := true } history thread') :
    Guarded { shared with lock := true } (threads.set t thread') (some t) history := by
  have hnone : holder = none := by
    rw [h.lock] at hclear
    simpa using hclear
  refine ⟨?_, rfl, fun hfalse => absurd hfalse (Option.some_ne_none _), ?_⟩
  · intro u other hu
    rcases getElem?_set_cases hu with ⟨rfl, rfl⟩ | ⟨hne, hold⟩
    · exact ⟨fun _ => rfl, fun _ => hin⟩
    · rw [h.inside u other hold, hnone]
      exact ⟨fun hfalse => absurd hfalse.symm (Option.some_ne_none _),
        fun hsame => absurd (Option.some.inj hsame).symm hne⟩
  · intro u other hu hheld
    rcases getElem?_set_cases hu with ⟨rfl, rfl⟩ | ⟨hne, -⟩
    · exact hstage (h.free hnone)
    · exact absurd (Option.some.inj hheld).symm hne

/-- A step of the thread that has the flag. -/
theorem Guarded.within (h : Guarded shared threads holder history) (ht : threads[t]? = some thread)
    (hin : thread.inside = true) (hin' : thread'.inside = true) (hlock : shared'.lock = shared.lock)
    (hstage : Stage shared history thread → Stage shared' history' thread') :
    Guarded shared' (threads.set t thread') holder history' := by
  have hheld : holder = some t := (h.inside t thread ht).mp hin
  refine ⟨?_, ?_, ?_, ?_⟩
  · intro u other hu
    rcases getElem?_set_cases hu with ⟨rfl, rfl⟩ | ⟨-, hold⟩
    · exact ⟨fun _ => hheld, fun _ => hin'⟩
    · exact h.inside u other hold
  · rw [hlock, h.lock]
  · rw [hheld]
    exact fun hfalse => absurd hfalse (Option.some_ne_none _)
  · intro u other hu hsame
    rcases getElem?_set_cases hu with ⟨rfl, rfl⟩ | ⟨hne, -⟩
    · exact hstage (h.stage u thread ht hheld)
    · rw [hheld] at hsame
      exact absurd (Option.some.inj hsame).symm hne

/-- The thread gives the flag back. -/
theorem Guarded.leave (h : Guarded shared threads holder history) (ht : threads[t]? = some thread)
    (hin : thread.inside = true) (hout' : thread'.inside = false)
    (hring : Stage shared history thread →
      Ring shared.lines shared.next shared.count history) :
    Guarded { shared with lock := false } (threads.set t thread') none history := by
  have hheld : holder = some t := (h.inside t thread ht).mp hin
  refine ⟨?_, rfl, fun _ => hring (h.stage t thread ht hheld),
    fun _ _ _ hfalse => absurd hfalse.symm (Option.some_ne_none _)⟩
  intro u other hu
  rcases getElem?_set_cases hu with ⟨rfl, rfl⟩ | ⟨hne, hold⟩
  · rw [hout']
    exact ⟨fun hfalse => Bool.noConfusion hfalse,
      fun hfalse => absurd hfalse.symm (Option.some_ne_none _)⟩
  · rw [h.inside u other hold, hheld]
    exact ⟨fun hsame => absurd (Option.some.inj hsame).symm hne,
      fun hfalse => absurd hfalse.symm (Option.some_ne_none _)⟩

end Guarded

/-! ## The steps of the thread with the flag -/

section Stages

variable {shared : Shared} {history : List Line}

theorem stage_copying {line : Line} (h : Stage shared history (.copying line)) :
    Stage { shared with lines := shared.lines.set shared.next (some line) } history
      (.advance line) := by
  obtain ⟨lines, hring, hlines⟩ := h
  refine ⟨lines, hring, ?_⟩
  simp only [hlines]
  rw [List.set_set]

theorem stage_grow {line : Line} (h : Stage shared history (.grow line)) :
    Stage { shared with
        count := if shared.count < LOG_LINES then shared.count + 1 else shared.count }
      (history ++ [line]) .release := by
  obtain ⟨lines, next, hring, hlines, hnext⟩ := h
  have hpush := hring.keeps.push (some line)
  rw [hring.width] at hpush
  refine ⟨?_, ?_⟩
  · rw [List.map_append]
    simp only [hlines, hnext]
    exact hpush
  · rw [hlines, List.length_set, hring.width]

/-- The line that the reader comes to is the next one of those that are kept. -/
theorem ring_read {i : Nat} (h : Ring shared.lines shared.next shared.count history)
    (hi : i < shared.count) :
    ∃ line, shared.lines[(shared.next + LOG_LINES - shared.count + i) % LOG_LINES]? =
        some (some line) ∧ (recent history).drop i = line :: (recent history).drop (i + 1) := by
  have hread := h.keeps.read hi
  have hcount := h.keeps.count
  have hmap : lastItems LOG_LINES (history.map some) = (recent history).map some := by
    rw [recent, lastItems, lastItems, List.length_map, List.map_drop]
  rw [h.width, hmap, List.getElem?_map] at hread
  rw [h.width, List.length_map] at hcount
  have hlt : i < (recent history).length := by
    rw [recent, length_lastItems]
    omega
  rw [List.getElem?_eq_getElem hlt, Option.map_some] at hread
  exact ⟨_, hread, List.drop_eq_getElem_cons hlt⟩

theorem ring_end {i : Nat} (h : Ring shared.lines shared.next shared.count history)
    (hi : shared.count ≤ i) : (recent history).drop i = [] := by
  have hcount := h.keeps.count
  rw [h.width, List.length_map] at hcount
  apply List.drop_eq_nil_of_le
  rw [recent, length_lastItems]
  omega

end Stages

/-! ## The invariant -/

/-- A read that got the flag gave the lines that were kept then; another one gave the header. -/
def Read.Honest (read : Read) : Prop :=
  read.text = if read.busy then header read.capacity read.dropped
    else page read.capacity read.dropped read.history

/-- The flag guards the ring, each message is counted, and the reads were honest. -/
structure Sound (s : System) : Prop where
  guarded : Guarded s.shared s.threads s.holder s.history
  sum : s.started = s.history.length + s.drops + s.threads.countP Thread.writing
  dropped : s.shared.dropped = UInt32.ofNat s.drops
  reads : ∀ read ∈ s.reads, read.Honest ∧ read.history <+: s.history

theorem sound_start (n : Nat) : Sound (systemStart n) := by
  have hidle : ∀ (t : Nat) (thread : Thread), (systemStart n).threads[t]? = some thread →
      thread = Thread.idle := by
    intro t thread ht
    exact List.eq_of_mem_replicate (List.mem_of_getElem? ht)
  refine ⟨⟨?_, rfl, fun _ => ⟨keeps_empty (by simp [systemStart]), rfl⟩,
    fun _ _ _ h => absurd h.symm (Option.some_ne_none _)⟩, ?_, rfl,
    fun _ h => absurd h List.not_mem_nil⟩
  · intro t thread ht
    rw [hidle t thread ht]
    exact ⟨fun h => Bool.noConfusion h, fun h => absurd h.symm (Option.some_ne_none _)⟩
  · simp [systemStart, List.countP_replicate, Thread.writing]

/-- The threads that write, after one of the threads has gone on. -/
theorem countP_writing {threads : List Thread} {t : Nat} {thread : Thread}
    (ht : threads[t]? = some thread) (thread' : Thread) :
    (threads.set t thread').countP Thread.writing + (if thread.writing then 1 else 0) =
      threads.countP Thread.writing + if thread'.writing then 1 else 0 := by
  obtain ⟨hlt, hsame⟩ := List.getElem?_eq_some_iff.mp ht
  have hset := List.countP_set (p := Thread.writing) (l := threads) (a := thread') hlt
  rw [hsame] at hset
  have hpos : thread.writing = true → 0 < threads.countP Thread.writing := by
    intro hwriting
    exact List.countP_pos_iff.mpr ⟨thread, List.mem_of_getElem? ht, hwriting⟩
  rw [hset]
  split
  · rename_i hwriting
    have := hpos hwriting
    omega
  · omega

section Turns

variable {s : System} {t : Nat} {thread : Thread}

theorem systemStep_at (ht : s.threads[t]? = some thread) (call : Call) :
    systemStep s t call = (threadStep s.shared call thread).2.2.note t
      { s with
        shared := (threadStep s.shared call thread).1
        threads := s.threads.set t (threadStep s.shared call thread).2.1 } := by
  unfold systemStep
  rw [ht]

/-- A thread goes on with what it is doing: no message is begun or counted, and no read returns. -/
theorem Sound.goesOn (h : Sound s) (ht : s.threads[t]? = some thread) (thread' : Thread)
    (hwriting : thread'.writing = thread.writing) {shared : Shared} {holder : Option Nat}
    (hguarded : Guarded shared (s.threads.set t thread') holder s.history)
    (hdropped : shared.dropped = s.shared.dropped) :
    Sound { s with shared, threads := s.threads.set t thread', holder } := by
  have hcount := countP_writing ht thread'
  have hsum := h.sum
  rw [hwriting] at hcount
  refine ⟨hguarded, ?_, hdropped.trans h.dropped, h.reads⟩
  dsimp only
  omega

/-- A read returns. -/
theorem Sound.returns (h : Sound s) (read : Read) (hhonest : read.Honest)
    (hleads : read.history <+: s.history) : Sound { s with reads := s.reads ++ [read] } := by
  refine ⟨h.guarded, h.sum, h.dropped, ?_⟩
  intro read' hread
  rcases List.mem_append.mp hread with hold | hnew
  · exact h.reads read' hold
  · rw [List.mem_singleton.mp hnew]
    exact ⟨hhonest, hleads⟩

theorem sound_idle (h : Sound s) (ht : s.threads[t]? = some .idle) (call : Call) :
    Sound (systemStep s t call) := by
  have hsum := h.sum
  rw [systemStep_at ht]
  cases call with
  | log ms message =>
    obtain ⟨line, hline⟩ := Option.isSome_iff_exists.mp (formatLine_isSome ms message)
    have hwriting := countP_writing ht (.tryWrite line)
    simp only [threadStep, hline, Effect.note]
    refine ⟨h.guarded.outside ht rfl rfl rfl rfl rfl rfl, ?_, h.dropped, h.reads⟩
    simp only [Thread.writing, Bool.false_eq_true, if_false, if_true] at hwriting ⊢
    omega
  | read capacity =>
    simp only [threadStep]
    split
    · exact h.goesOn ht .idle rfl (h.guarded.outside ht rfl rfl rfl rfl rfl rfl) rfl
    · exact h.goesOn ht (.tryRead capacity s.shared.dropped) rfl
        (h.guarded.outside ht rfl rfl rfl rfl rfl rfl) rfl

theorem sound_tryWrite (h : Sound s) {line : Line} (ht : s.threads[t]? = some (.tryWrite line))
    (call : Call) : Sound (systemStep s t call) := by
  rw [systemStep_at ht]
  simp only [threadStep]
  split
  · exact h.goesOn ht .drop rfl (h.guarded.outside ht rfl rfl rfl rfl rfl rfl) rfl
  · rename_i hclear
    exact h.goesOn ht (.copy line) rfl (h.guarded.enter (by simpa using hclear) rfl id) rfl

/-- A message that found the flag taken is counted. -/
theorem sound_drop (h : Sound s) (ht : s.threads[t]? = some .drop) (call : Call) :
    Sound (systemStep s t call) := by
  have hsum := h.sum
  have hwriting := countP_writing ht .idle
  rw [systemStep_at ht]
  refine ⟨h.guarded.outside ht rfl rfl rfl rfl rfl rfl, ?_, ?_, h.reads⟩
  · simp only [threadStep, Effect.note, Thread.writing, Bool.false_eq_true, if_false,
      if_true] at hwriting ⊢
    omega
  · simp only [threadStep, Effect.note, h.dropped]
    rw [UInt32.ofNat_add]
    rfl

/-- The message is in the ring. -/
theorem sound_grow (h : Sound s) {line : Line} (ht : s.threads[t]? = some (.grow line))
    (call : Call) : Sound (systemStep s t call) := by
  have hsum := h.sum
  have hwriting := countP_writing ht .release
  rw [systemStep_at ht]
  refine ⟨h.guarded.within ht rfl rfl rfl stage_grow, ?_, h.dropped, ?_⟩
  · simp only [threadStep, Effect.note, Thread.writing, Bool.false_eq_true, if_false, if_true,
      List.length_append, List.length_singleton] at hwriting ⊢
    omega
  · intro read hread
    obtain ⟨hhonest, hleads⟩ := h.reads read hread
    exact ⟨hhonest, hleads.trans (List.prefix_append _ _)⟩

theorem sound_tryRead (h : Sound s) {capacity : Nat} {dropped : UInt32}
    (ht : s.threads[t]? = some (.tryRead capacity dropped)) (call : Call) :
    Sound (systemStep s t call) := by
  rw [systemStep_at ht]
  simp only [threadStep]
  split
  · exact (h.goesOn ht .idle rfl (h.guarded.outside ht rfl rfl rfl rfl rfl rfl) rfl).returns
      ⟨capacity, dropped, true, header capacity dropped, s.history⟩ rfl (List.prefix_refl _)
  · rename_i hclear
    exact h.goesOn ht (.fill capacity dropped 0 (header capacity dropped)) rfl
      (h.guarded.enter (by simpa using hclear) rfl fun hring => ⟨hring, Nat.zero_le _, rfl⟩) rfl

/-- The reader takes the next line, when there is one and room for it. -/
theorem sound_fill (h : Sound s) {capacity i : Nat} {dropped : UInt32} {text : List UInt8}
    (ht : s.threads[t]? = some (.fill capacity dropped i text)) (call : Call) :
    Sound (systemStep s t call) := by
  obtain ⟨hring, hi, hpage⟩ := h.guarded.stage t _ ht ((h.guarded.inside t _ ht).mp rfl)
  rw [systemStep_at ht]
  simp only [threadStep]
  split
  · rename_i hmore
    obtain ⟨line, hcell, hnext⟩ := ring_read hring hmore
    rw [hnext, fillLines] at hpage
    rw [hcell]
    dsimp only
    split
    · rename_i hfull
      rw [if_pos hfull] at hpage
      exact h.goesOn ht (.releaseRead capacity dropped text) rfl
        (h.guarded.within ht rfl rfl rfl fun _ => ⟨hring, hpage⟩) rfl
    · rename_i hroom
      rw [if_neg hroom] at hpage
      exact h.goesOn ht (.fill capacity dropped (i + 1) (text ++ line.text ++ [0x0a])) rfl
        (h.guarded.within ht rfl rfl rfl fun _ => ⟨hring, hmore, hpage⟩) rfl
  · rename_i hall
    rw [ring_end hring (not_lt.mp hall), fillLines] at hpage
    exact h.goesOn ht (.releaseRead capacity dropped text) rfl
      (h.guarded.within ht rfl rfl rfl fun _ => ⟨hring, hpage⟩) rfl

theorem sound_releaseRead (h : Sound s) {capacity : Nat} {dropped : UInt32} {text : List UInt8}
    (ht : s.threads[t]? = some (.releaseRead capacity dropped text)) (call : Call) :
    Sound (systemStep s t call) := by
  obtain ⟨-, hpage⟩ := h.guarded.stage t _ ht ((h.guarded.inside t _ ht).mp rfl)
  rw [systemStep_at ht]
  exact (h.goesOn ht .idle rfl (h.guarded.leave ht rfl rfl And.left) rfl).returns
    ⟨capacity, dropped, false, text, s.history⟩ hpage (List.prefix_refl _)

theorem sound_step (h : Sound s) (t : Nat) (call : Call) : Sound (systemStep s t call) := by
  rcases ht : s.threads[t]? with _ | thread
  · unfold systemStep
    rw [ht]
    exact h
  cases thread with
  | idle => exact sound_idle h ht call
  | tryWrite line => exact sound_tryWrite h ht call
  | drop => exact sound_drop h ht call
  | copy line =>
    rw [systemStep_at ht]
    exact h.goesOn ht (.copying line) rfl
      (h.guarded.within ht rfl rfl rfl fun hring => ⟨_, hring, rfl⟩) rfl
  | copying line =>
    rw [systemStep_at ht]
    exact h.goesOn ht (.advance line) rfl (h.guarded.within ht rfl rfl rfl stage_copying) rfl
  | advance line =>
    rw [systemStep_at ht]
    refine h.goesOn ht (.grow line) rfl (h.guarded.within ht rfl rfl rfl ?_) rfl
    rintro ⟨lines, hring, hlines⟩
    exact ⟨lines, s.shared.next, hring, hlines, rfl⟩
  | grow line => exact sound_grow h ht call
  | release =>
    rw [systemStep_at ht]
    exact h.goesOn ht .idle rfl (h.guarded.leave ht rfl rfl id) rfl
  | tryRead capacity dropped => exact sound_tryRead h ht call
  | fill capacity dropped i text => exact sound_fill h ht call
  | releaseRead capacity dropped text => exact sound_releaseRead h ht call
  | torn => exact (h.guarded.stage t _ ht ((h.guarded.inside t _ ht).mp rfl)).elim

end Turns

theorem sound_run (n : Nat) (schedule : List (Nat × Call)) :
    Sound (systemRun (systemStart n) schedule) := by
  have hrun : ∀ (schedule : List (Nat × Call)) (s : System), Sound s → Sound (systemRun s schedule) := by
    intro schedule
    induction schedule with
    | nil => exact fun _ h => h
    | cons turn schedule ih => exact fun s h => ih _ (sound_step h turn.1 turn.2)
  exact hrun schedule _ (sound_start n)

/-- However the threads take turns: a read that gets the flag gives the header and then whole lines,
the last ones that were written until then in their order, as many as there is room for, and 4096
bytes have room for all of them. A read that does not get the flag gives the header. -/
theorem reads_are_whole (n : Nat) (schedule : List (Nat × Call)) :
    let s := systemRun (systemStart n) schedule
    ∀ read ∈ s.reads, read.history <+: s.history ∧ read.text.length ≤ read.capacity - 1 ∧
      (read.busy = true → read.text = header read.capacity read.dropped) ∧
      (read.busy = false → read.text = page read.capacity read.dropped read.history) ∧
      (read.busy = false → 4096 ≤ read.capacity → read.text =
        ascii "Application diagnostics; dropped=" ++ decimal read.dropped.toNat ++ [0x0a] ++
          (recent read.history).flatMap fun line => line.text ++ [0x0a]) := by
  intro s read hread
  obtain ⟨htext, hleads⟩ := (sound_run n schedule).reads read hread
  unfold Read.Honest at htext
  refine ⟨hleads, ?_, ?_, ?_, ?_⟩
  · rw [htext]
    split
    · exact length_header_le _ _
    · exact length_fillLines_le _ _ (length_header_le _ _)
  · intro hbusy
    rw [htext, if_pos hbusy]
  · intro hbusy
    rw [htext, hbusy]
    rfl
  · intro hbusy hcapacity
    rw [htext, hbusy]
    exact page_all hcapacity _ _

/-- However the threads take turns: two of them never have the flag at once, none of them reads a
line that is being written, and a message that came to the flag is in the history, or was counted
as dropped, or is still on its way. -/
theorem messages_are_counted (n : Nat) (schedule : List (Nat × Call)) :
    let s := systemRun (systemStart n) schedule
    (∀ (t u : Nat) (a b : Thread), s.threads[t]? = some a → s.threads[u]? = some b →
      a.inside = true → b.inside = true → t = u) ∧
      (∀ thread ∈ s.threads, thread ≠ .torn) ∧
      s.started = s.history.length + s.drops + s.threads.countP Thread.writing ∧
      s.shared.dropped = UInt32.ofNat s.drops := by
  intro s
  have hsound := sound_run n schedule
  have hinside := hsound.guarded.inside
  refine ⟨?_, ?_, hsound.sum, hsound.dropped⟩
  · intro t u a b ha hb hina hinb
    rw [hinside t a ha] at hina
    rw [hinside u b hb, hina] at hinb
    exact Option.some.inj hinb
  · rintro thread hthread rfl
    obtain ⟨t, ht⟩ := List.mem_iff_getElem?.mp hthread
    exact (hsound.guarded.stage t _ ht ((hinside t _ ht).mp rfl)).elim

/-! ## No waiting -/

/-- A bound on the steps that a thread has left in its call. -/
def Thread.left : Thread → Nat
  | .idle => 0
  | .drop | .release | .releaseRead .. | .torn => 1
  | .grow _ => 2
  | .advance _ => 3
  | .copying _ => 4
  | .copy _ => 5
  | .tryWrite _ => 6
  | .fill _ _ i _ => 2 + (LOG_LINES - i)
  | .tryRead .. => 3 + LOG_LINES

@[simp] theorem threads_note (effect : Effect) (t : Nat) (s : System) :
    (effect.note t s).threads = s.threads := by
  cases effect <;> rfl

theorem systemStep_other {s : System} {t u : Nat} (hne : u ≠ t) (call : Call) :
    (systemStep s u call).threads[t]? = s.threads[t]? := by
  unfold systemStep
  split
  · rfl
  · rw [threads_note]
    exact List.getElem?_set_ne hne

/-- A step of a call brings it closer to its end. -/
theorem left_step {s : System} (h : Sound s) {t : Nat} {thread : Thread}
    (ht : s.threads[t]? = some thread) (hbusy : 0 < thread.left) (call : Call) :
    ∃ thread', (systemStep s t call).threads[t]? = some thread' ∧ thread'.left < thread.left := by
  have hlt := (List.getElem?_eq_some_iff.mp ht).1
  refine ⟨(threadStep s.shared call thread).2.1, ?_, ?_⟩
  · unfold systemStep
    rw [ht]
    dsimp only
    rw [threads_note]
    exact List.getElem?_set_self hlt
  have hlines : LOG_LINES = 24 := rfl
  cases thread with
  | idle => exact absurd hbusy (Nat.lt_irrefl 0)
  | tryWrite line =>
    simp only [threadStep]
    split <;> simp [Thread.left]
  | tryRead capacity dropped =>
    simp only [threadStep]
    split <;> simp [Thread.left]
  | fill capacity dropped i text =>
    obtain ⟨hring, -, -⟩ := h.guarded.stage t _ ht ((h.guarded.inside t _ ht).mp rfl)
    have hcount := hring.keeps.count
    rw [hring.width] at hcount
    simp only [threadStep]
    split
    · rename_i hmore
      obtain ⟨line, hcell, -⟩ := ring_read hring hmore
      rw [hcell]
      dsimp only
      split
      · simp only [Thread.left]
        omega
      · simp only [Thread.left]
        omega
    · simp only [Thread.left]
      omega
  | torn => exact (h.guarded.stage t _ ht ((h.guarded.inside t _ ht).mp rfl)).elim
  | drop => simp [threadStep, Thread.left]
  | copy line => simp [threadStep, Thread.left]
  | copying line => simp [threadStep, Thread.left]
  | advance line => simp [threadStep, Thread.left]
  | grow line => simp [threadStep, Thread.left]
  | release => simp [threadStep, Thread.left]
  | releaseRead capacity dropped text => simp [threadStep, Thread.left]

theorem ends_within (schedule : List (Nat × Call)) (t : Nat) :
    ∀ {s : System} {thread : Thread}, Sound s → s.threads[t]? = some thread →
      thread.left ≤ schedule.countP (fun turn => turn.1 == t) →
      ∃ part, part <+: schedule ∧ (systemRun s part).threads[t]? = some .idle := by
  have hidle : ∀ {thread : Thread}, thread.left = 0 → thread = .idle := by
    intro thread hleft
    cases thread <;> simp [Thread.left] at hleft ⊢
  induction schedule with
  | nil =>
    intro s thread _ ht hleft
    rw [hidle (Nat.le_zero.mp hleft)] at ht
    exact ⟨[], List.prefix_refl _, ht⟩
  | cons turn schedule ih =>
    intro s thread h ht hleft
    rcases Nat.eq_zero_or_pos thread.left with hzero | hbusy
    · rw [hidle hzero] at ht
      exact ⟨[], List.nil_prefix, ht⟩
    have hnext := sound_step h turn.1 turn.2
    rw [List.countP_cons] at hleft
    by_cases hturn : turn.1 = t
    · rw [hturn] at hnext
      obtain ⟨thread', ht', hless⟩ := left_step h ht hbusy turn.2
      rw [if_pos (by simpa using hturn)] at hleft
      obtain ⟨part, hpart, hend⟩ := ih hnext ht' (by omega)
      refine ⟨turn :: part, List.cons_prefix_cons.mpr ⟨rfl, hpart⟩, ?_⟩
      rw [systemRun, List.foldl_cons, hturn]
      exact hend
    · rw [if_neg (by simpa using hturn)] at hleft
      obtain ⟨part, hpart, hend⟩ := ih hnext ((systemStep_other hturn turn.2).trans ht) (by omega)
      exact ⟨turn :: part, List.cons_prefix_cons.mpr ⟨rfl, hpart⟩, hend⟩

theorem length_threads (n : Nat) (schedule : List (Nat × Call)) :
    (systemRun (systemStart n) schedule).threads.length = n := by
  have hstep : ∀ (s : System) t call, (systemStep s t call).threads.length = s.threads.length := by
    intro s t call
    unfold systemStep
    split
    · rfl
    · rw [threads_note]
      exact List.length_set
  have hrun : ∀ (schedule : List (Nat × Call)) (s : System),
      (systemRun s schedule).threads.length = s.threads.length := by
    intro schedule
    induction schedule with
    | nil => exact fun _ => rfl
    | cons turn schedule ih => exact fun s => (ih _).trans (hstep s turn.1 turn.2)
  rw [hrun]
  exact List.length_replicate

theorem Thread.left_le (thread : Thread) : thread.left ≤ 27 := by
  have hlines : LOG_LINES = 24 := rfl
  cases thread <;> simp only [Thread.left] <;> omega

/-- A call ends within 27 of its own steps, whatever the other threads do and wherever they have
stopped. -/
theorem calls_never_wait (n : Nat) (before after : List (Nat × Call)) (t : Nat) (ht : t < n)
    (hsteps : 27 ≤ after.countP fun turn => turn.1 == t) :
    ∃ part, part <+: after ∧
      (systemRun (systemStart n) (before ++ part)).threads[t]? = some .idle := by
  obtain ⟨thread, hthread⟩ : ∃ thread, (systemRun (systemStart n) before).threads[t]? =
      some thread := ⟨_, List.getElem?_eq_getElem (by rw [length_threads]; exact ht)⟩
  obtain ⟨part, hpart, hend⟩ := ends_within after t (sound_run n before) hthread
    (thread.left_le.trans hsteps)
  refine ⟨part, hpart, ?_⟩
  rw [systemRun, List.foldl_append]
  exact hend

/-- A writer stops with the flag, and a reader that comes then has ended after its steps. -/
theorem calls_never_wait_held :
    ∃ part, part <+: List.replicate 27 (1, Call.read 64) ∧
      (systemRun (systemStart 2) ([(0, Call.log 7 [0x6f, 0x6b]), (0, Call.read 1)] ++
        part)).threads[1]? = some .idle :=
  calls_never_wait 2 _ _ 1 (by decide) (by decide)

end EmbeddedAudio.BoardLog
