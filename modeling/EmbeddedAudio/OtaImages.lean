-- Which images an upgrade is requested for, over all the connections of the diagnostics server, and
-- that a proper upload gets its own.
import EmbeddedAudio.OtaLines

namespace EmbeddedAudio.Ota

open FirstMatch

variable {φ : Type}

/-! ## The history of the flash -/

/-- What the calls so far amount to: the image that has been written since the flash was last
initialised, whether all of it was flushed, and the images whose upgrade was requested. -/
structure Track where
  image : Option (List UInt8)
  flushed : Bool
  upgraded : List (Option (List UInt8))

/-- A call that fails leaves no image. An upgrade that is requested before the flush is one of no
image. -/
def Track.next (t : Track) : FlashCall × Bool → Track
  | (.init, done) => { t with image := if done then some [] else none, flushed := false }
  | (.write data, done) =>
    { t with image := if done then t.image.map (· ++ data) else none, flushed := false }
  | (.flush, done) => { t with flushed := done }
  | (.requestUpgrade, done) =>
    if done then { t with upgraded := t.upgraded ++ [if t.flushed then t.image else none] } else t

def Device.track (device : Device φ) : Track :=
  device.calls.foldl Track.next ⟨none, false, []⟩

theorem Device.track_call (lib : Flash φ) (device : Device φ) (call : FlashCall) :
    (device.call lib call).2.track = device.track.next (call, (device.call lib call).1) := by
  simp only [Device.track, Device.call, List.foldl_append, List.foldl_cons, List.foldl_nil]

@[simp] theorem Device.reboot_call (lib : Flash φ) (device : Device φ) (call : FlashCall) :
    (device.call lib call).2.reboot = device.reboot := rfl

/-- No upgrade was requested. -/
structure Kept (device device' : Device φ) : Prop where
  upgraded : device'.track.upgraded = device.track.upgraded
  reboot : device'.reboot = device.reboot

theorem Kept.refl (device : Device φ) : Kept device device := ⟨rfl, rfl⟩

theorem Kept.trans {a b c : Device φ} (hab : Kept a b) (hbc : Kept b c) : Kept a c :=
  ⟨hbc.upgraded.trans hab.upgraded, hbc.reboot.trans hab.reboot⟩

/-- All calls but the last one of an upload. -/
theorem kept_call (lib : Flash φ) (device : Device φ) (call : FlashCall)
    (h : call ≠ .requestUpgrade) : Kept device (device.call lib call).2 := by
  refine ⟨?_, rfl⟩
  rw [Device.track_call]
  cases call with
  | requestUpgrade => exact absurd rfl h
  | init => rfl
  | write data => rfl
  | flush => rfl

/-- A device with a first part of an image. -/
def Holds (device : Device φ) (image : List UInt8) : Prop :=
  device.track.image = some image ∧ device.track.flushed = false

theorem holds_init (lib : Flash φ) (device : Device φ) (h : (device.call lib .init).1 = true) :
    Holds (device.call lib .init).2 [] := by
  unfold Holds
  rw [Device.track_call, h]
  exact ⟨rfl, rfl⟩

theorem holds_write {lib : Flash φ} {device : Device φ} {image : List UInt8}
    (h : Holds device image) {data : List UInt8} (hdone : (device.call lib (.write data)).1 = true) :
    Holds (device.call lib (.write data)).2 (image ++ data) := by
  unfold Holds
  rw [Device.track_call, hdone, Track.next, h.1]
  exact ⟨rfl, rfl⟩

/-! ## One upload -/

/-- What an upload leaves: an upgrade for the whole image, or none. -/
structure Uploads (device : Device φ) (image : List UInt8) (r : Reply × Device φ) : Prop where
  done : r.1 = rebooting →
    r.2.track.upgraded = device.track.upgraded ++ [some image] ∧ r.2.reboot = true
  failed : r.1 ≠ rebooting → Kept device r.2

theorem uploads_failed {device device' : Device φ} (image : List UInt8) {reply : Reply}
    (hreply : reply ≠ rebooting) (h : Kept device device') :
    Uploads device image (reply, device') :=
  ⟨fun hdone => absurd hdone hreply, fun _ => h⟩

theorem Uploads.after {device device' : Device φ} {image : List UInt8} {r : Reply × Device φ}
    (hkept : Kept device device') (h : Uploads device' image r) : Uploads device image r := by
  refine ⟨?_, fun hne => hkept.trans (h.failed hne)⟩
  intro hdone
  rw [← hkept.upgraded]
  exact h.done hdone

theorem uploads_finish (lib : Flash φ) {device : Device φ} {image : List UInt8}
    (h : Holds device image) : Uploads device image (finishImage lib device) := by
  have hflush := kept_call lib device .flush (by decide)
  have htrack := device.track_call lib .flush
  unfold finishImage
  dsimp only
  split
  · exact uploads_failed image (by decide) hflush
  rename_i hflushed
  rw [Bool.not_eq_true', Bool.not_eq_false] at hflushed
  have hrequest := (device.call lib .flush).2.track_call lib .requestUpgrade
  rw [hflushed] at htrack
  split
  · rename_i hrefused
    rw [Bool.not_eq_true'] at hrefused
    rw [hrefused] at hrequest
    refine uploads_failed image (by decide) (hflush.trans ⟨?_, rfl⟩)
    rw [hrequest]
    rfl
  · rename_i hrequested
    rw [Bool.not_eq_true', Bool.not_eq_false] at hrequested
    rw [hrequested, htrack] at hrequest
    refine ⟨fun _ => ⟨?_, rfl⟩, fun hne => absurd rfl hne⟩
    show ((device.call lib .flush).2.call lib .requestUpgrade).2.track.upgraded = _
    rw [hrequest]
    simp only [Track.next, if_true, h.1]

theorem gives_leads (arrival : Arrival) (stream : List UInt8) (want : Nat) :
    arrival.gives stream want <+: stream :=
  List.take_prefix _ _

theorem length_gives (arrival : Arrival) (stream : List UInt8) (want : Nat) :
    (arrival.gives stream want).length ≤ want := by
  rw [Arrival.gives, List.length_take]
  omega

/-- The loop writes the next bytes of the stream until the image is complete. -/
theorem receiveImage_outcome (lib : Flash φ) (contentLength : Nat) (arrivals : List Arrival) :
    ∀ (stream : List UInt8) {received : Nat} {device : Device φ} {image : List UInt8},
      Holds device image → received ≤ contentLength →
      let r := receiveImage lib contentLength arrivals stream received device
      Kept device r.2 ∧ (∀ reply, r.1 = some reply → reply ≠ rebooting) ∧
        (r.1 = none → contentLength - received ≤ stream.length ∧
          Holds r.2 (image ++ stream.take (contentLength - received))) := by
  induction arrivals with
  | nil =>
    intro stream received device image h hle
    unfold receiveImage
    dsimp only
    split
    · refine ⟨Kept.refl _, ?_, fun hnone => absurd hnone (Option.some_ne_none _)⟩
      intro reply hreply
      rw [← Option.some.inj hreply]
      decide
    · rename_i hall
      refine ⟨Kept.refl _, fun _ hsome => absurd hsome.symm (Option.some_ne_none _), fun _ => ?_⟩
      rw [Nat.sub_eq_zero_of_le (not_lt.mp hall), List.take_zero, List.append_nil]
      exact ⟨Nat.zero_le _, h⟩
  | cons arrival arrivals ih =>
    intro stream received device image h hle
    unfold receiveImage
    dsimp only
    split
    · rename_i hmore
      have hstop : ∀ (device' : Device φ) (reply : Reply), Kept device device' →
          reply ≠ rebooting → Kept device device' ∧
            (∀ reply', some reply = some reply' → reply' ≠ rebooting) ∧
            (some reply = none → contentLength - received ≤ stream.length ∧
              Holds device' (image ++ stream.take (contentLength - received))) := by
        intro device' reply hkept hreply
        refine ⟨hkept, ?_, fun hnone => absurd hnone (Option.some_ne_none _)⟩
        rintro _ hsame
        rwa [← Option.some.inj hsame]
      set want := min (contentLength - received) OTA_CHUNK with hwant
      set buffer := arrival.gives stream want with hbuffer
      have hwidth : buffer.length ≤ want := length_gives arrival stream want
      have hprefix : buffer <+: stream := gives_leads arrival stream want
      have hfits := hprefix.length_le
      split
      · exact hstop device shortRead (Kept.refl _) (by decide)
      rename_i hsome
      have hkept := kept_call lib device (.write buffer) (by simp)
      split
      · exact hstop _ flashWriteFailed hkept (by decide)
      rename_i hwritten
      rw [Bool.not_eq_true', Bool.not_eq_false] at hwritten
      obtain ⟨hrest, hreply, hnone⟩ := ih (stream.drop buffer.length)
        (holds_write h hwritten) (show received + buffer.length ≤ contentLength by omega)
      refine ⟨hkept.trans hrest, hreply, ?_⟩
      intro hdone
      obtain ⟨hlength, hholds⟩ := hnone hdone
      rw [List.length_drop] at hlength
      refine ⟨by omega, ?_⟩
      have hjoin : stream.take (contentLength - received) = buffer ++
          (stream.drop buffer.length).take (contentLength - (received + buffer.length)) := by
        conv_rhs => enter [1]; rw [List.prefix_iff_eq_take.mp hprefix]
        rw [← List.take_add]
        congr 1
        omega
      rw [hjoin, ← List.append_assoc]
      exact hholds
    · rename_i hall
      refine ⟨Kept.refl _, fun _ hsome => absurd hsome.symm (Option.some_ne_none _), fun _ => ?_⟩
      rw [Nat.sub_eq_zero_of_le (not_lt.mp hall), List.take_zero, List.append_nil]
      exact ⟨Nat.zero_le _, h⟩

theorem uploads_write (lib : Flash φ) (contentLength : Nat) (buffered : List UInt8)
    (hbuffered : buffered.length ≤ contentLength) (socket : Socket) (device : Device φ) :
    let r := writeImage lib contentLength buffered socket device
    Uploads device (buffered ++ socket.stream.take (contentLength - buffered.length)) r ∧
      (r.1 = rebooting → contentLength - buffered.length ≤ socket.stream.length) := by
  set image := buffered ++ socket.stream.take (contentLength - buffered.length) with himage
  have hstop : ∀ (device' : Device φ) (reply : Reply), Kept device device' → reply ≠ rebooting →
      Uploads device image (reply, device') ∧
        (reply = rebooting → contentLength - buffered.length ≤ socket.stream.length) :=
    fun device' reply hkept hreply => ⟨uploads_failed image hreply hkept, (absurd · hreply)⟩
  have hinit := kept_call lib device .init (by decide)
  unfold writeImage
  dsimp only
  split
  · exact hstop _ flashInitFailed hinit (by decide)
  rename_i hready
  rw [Bool.not_eq_true', Bool.not_eq_false] at hready
  have hholds := holds_init lib device hready
  set ready := (device.call lib .init).2
  -- The bytes that came with the request, when there are some, are written first.
  have hfirst : ∀ first : Bool × Device φ,
      first = (if buffered.length = 0 then (true, ready) else ready.call lib (.write buffered)) →
      Kept ready first.2 ∧ (first.1 = true → Holds first.2 buffered) := by
    rintro _ rfl
    split
    · rename_i hempty
      rw [List.length_eq_zero_iff.mp hempty]
      exact ⟨Kept.refl _, fun _ => hholds⟩
    · exact ⟨kept_call lib ready _ (by simp), fun hdone => holds_write hholds hdone⟩
  generalize (if buffered.length = 0 then (true, ready)
    else ready.call lib (.write buffered)) = first at hfirst ⊢
  obtain ⟨hkept, hwritten⟩ := hfirst first rfl
  split
  · exact hstop _ flashWriteFailed (hinit.trans hkept) (by decide)
  rename_i hdone
  rw [Bool.not_eq_true', Bool.not_eq_false] at hdone
  obtain ⟨hrest, hreply, hnone⟩ := receiveImage_outcome lib contentLength socket.arrivals
    socket.stream (hwritten hdone) hbuffered
  split
  · rename_i reply device' hreceived
    rw [hreceived] at hrest hreply
    exact hstop _ reply ((hinit.trans hkept).trans hrest) (hreply reply rfl)
  · rename_i device' hreceived
    rw [hreceived] at hrest hnone
    obtain ⟨hlength, hheld⟩ := hnone rfl
    exact ⟨(uploads_finish lib hheld).after ((hinit.trans hkept).trans hrest), fun _ => hlength⟩

/-! ## One connection -/

/-- What the client of an upload has sent: a request that begins as one, with an empty line and a
length, and behind the empty line so many bytes of an image. -/
structure Sent (stream image : List UInt8) : Prop where
  request : ∃ request headerEnd, request <+: stream ∧
    ascii "POST /ota " <+: cString request ∧
    EmptyLine (cString request) headerEnd ∧
    LengthLine (cString request) image.length ∧
    image <+: stream.drop (headerEnd + (ascii "\r\n\r\n").length)

theorem startsWith_post (text : List UInt8) :
    startsWith id (ascii "POST /ota ") text ↔ ascii "POST /ota " <+: text := by
  rw [startsWith, List.isPrefixOf_iff_prefix, List.map_id]

theorem readRequest_leads (arrivals : List Arrival) :
    ∀ {stream request : List UInt8} {r : List UInt8 × Socket},
      readRequest arrivals stream request = some r → r.1 ++ r.2.stream = request ++ stream := by
  induction arrivals with
  | nil =>
    intro stream request r h
    unfold readRequest at h
    split at h
    · exact absurd h.symm (Option.some_ne_none _)
    · rw [← Option.some.inj h]
  | cons arrival arrivals ih =>
    intro stream request r h
    unfold readRequest at h
    split at h
    · dsimp only at h
      split at h
      · rw [← Option.some.inj h]
      set got := arrival.gives stream (REQUEST_BYTES - 1 - request.length) with hgot
      have hsplit : got ++ stream.drop got.length = stream :=
        List.prefix_iff_eq_append.mp (gives_leads arrival stream _)
      split at h
      · exact absurd h.symm (Option.some_ne_none _)
      split at h
      · rw [← Option.some.inj h]
        dsimp only
        rw [List.append_assoc, hsplit]
      · rw [ih h, List.append_assoc, hsplit]
    · rw [← Option.some.inj h]

/-- The image of an upload is what follows the empty line, up to the length. -/
theorem handle_uploads (lib : Flash φ) {request stream : List UInt8} {rest : Socket}
    (hsplit : request ++ rest.stream = stream)
    (hpost : startsWith id (ascii "POST /ota ") (cString request)) (device : Device φ) :
    let r := otaHandleRequest lib request rest device
    ((r.1 ≠ rebooting → Kept device r.2) ∧
      (r.1 = rebooting → ∃ image, Sent stream image ∧
        r.2.track.upgraded = device.track.upgraded ++ [some image] ∧ r.2.reboot = true)) := by
  unfold otaHandleRequest
  have hrefused : ∀ reply : Reply, reply ≠ rebooting →
      ((reply ≠ rebooting → Kept device device) ∧
        (reply = rebooting → ∃ image, Sent stream image ∧
          device.track.upgraded = device.track.upgraded ++ [some image] ∧
            device.reboot = true)) :=
    fun reply hreply => ⟨fun _ => Kept.refl _, fun h => absurd h hreply⟩
  split
  · exact hrefused lengthRequired (by decide)
  rename_i contentLength hlength
  split
  · exact hrefused badRequest (by decide)
  rename_i headerEnd hend
  set body := request.drop (headerEnd + 4) with hbody
  have hbuffered : (body.take contentLength).length = min contentLength body.length :=
    List.length_take
  obtain ⟨huploads, henough⟩ := uploads_write lib contentLength
    (body.take contentLength) (by omega) rest device
  refine ⟨huploads.failed, fun hdone => ?_⟩
  have hrest := henough hdone
  refine ⟨_, ⟨request, headerEnd, ?_, (startsWith_post _).mp hpost,
    (findHeaderEnd_iff _ _).mp hend, ?_, ?_⟩, huploads.done hdone⟩
  · exact hsplit ▸ List.prefix_append _ _
  · rw [← findContentLength_iff, hlength, List.length_append, List.length_take (l := rest.stream),
      hbuffered]
    congr 1
    omega
  · have hfits := (firstMatch_fits window_headerEnd hend).trans (cString_leads request).length_le
    have hfour : (ascii "\r\n\r\n").length = 4 := rfl
    have htake : contentLength - (body.take contentLength).length =
        contentLength - body.length := by
      omega
    rw [hfour, htake, ← List.take_append, hbody, ← List.drop_append_of_le_length hfits, hsplit]
    exact List.take_prefix _ _

theorem serve_uploads (lib : Flash φ) (available : Bool) (socket : Socket) (device : Device φ) :
    let r := serve lib available socket device
    ((r.1 ≠ .upload rebooting → Kept device r.2) ∧
      (r.1 = .upload rebooting → ∃ image, Sent socket.stream image ∧
        r.2.track.upgraded = device.track.upgraded ++ [some image] ∧ r.2.reboot = true)) := by
  have hother : ∀ answer : Answer, answer ≠ .upload rebooting →
      ((answer ≠ .upload rebooting → Kept device device) ∧
        (answer = .upload rebooting → ∃ image, Sent socket.stream image ∧
          device.track.upgraded = device.track.upgraded ++ [some image] ∧
            device.reboot = true)) :=
    fun answer hanswer => ⟨fun _ => Kept.refl _, fun h => absurd h hanswer⟩
  unfold serve
  split
  · exact hother .dropped (by decide)
  rename_i request rest hread
  dsimp only
  split
  · exact hother .dropped (by decide)
  split
  · rename_i hpost
    rw [Bool.and_eq_true] at hpost
    obtain ⟨hfailed, hdone⟩ :=
      handle_uploads lib (readRequest_leads _ hread) hpost.2 device
    refine ⟨fun hne => hfailed ?_, fun hreply => hdone (Answer.upload.inj hreply)⟩
    intro hreply
    exact hne (congrArg Answer.upload hreply)
  split
  · exact hother .logs (by decide)
  split
  · exact hother .page (by decide)
  · exact hother .notFound (by decide)

/-! ## All the connections -/

/-- The clients that were answered that the device reboots. -/
def uploaders (sockets : List Socket) (answers : List Answer) : List Socket :=
  ((sockets.zip answers).filter fun served => served.2 == .upload rebooting).map (·.1)

theorem uploaders_cons (socket : Socket) (sockets : List Socket) (answer : Answer)
    (answers : List Answer) :
    uploaders (socket :: sockets) (answer :: answers) =
      (if answer = .upload rebooting then [socket] else []) ++ uploaders sockets answers := by
  unfold uploaders
  rw [List.zip_cons_cons, List.filter_cons]
  split <;> simp_all

theorem serveAll_uploads (lib : Flash φ) (available : Bool) (sockets : List Socket)
    (device : Device φ) :
    let r := serveAll lib available sockets device
    ∃ images, r.2.track.upgraded = device.track.upgraded ++ images.map some ∧
      List.Forall₂ (fun socket image => Sent socket.stream image) (uploaders sockets r.1) images ∧
      (r.2.reboot = true ↔ device.reboot = true ∨ images ≠ []) := by
  induction sockets generalizing device with
  | nil => exact ⟨[], by simp [serveAll], .nil, by simp [serveAll]⟩
  | cons socket sockets ih =>
    obtain ⟨hkept, hdone⟩ := serve_uploads lib available socket device
    obtain ⟨images, hupgraded, hsent, hreboot⟩ := ih (serve lib available socket device).2
    simp only [serveAll, uploaders_cons]
    by_cases hupload : (serve lib available socket device).1 = .upload rebooting
    · obtain ⟨image, himage, hone, hflag⟩ := hdone hupload
      refine ⟨image :: images, ?_, ?_, ?_⟩
      · rw [hupgraded, hone, List.map_cons, List.append_assoc, List.singleton_append]
      · rw [if_pos hupload]
        exact .cons himage hsent
      · rw [hreboot, hflag]
        simp
    · obtain ⟨hsame, hflag⟩ := hkept hupload
      refine ⟨images, ?_, ?_, ?_⟩
      · rw [hupgraded, hsame]
      · rw [if_neg hupload]
        exact hsent
      · rw [hreboot, hflag]

/-- Whatever the clients send, however it comes and whatever fails: an upgrade is requested only for
an image that was written and flushed as a whole, and these images are, in their order, those of
the clients that were answered so. The device reboots when there is one. -/
theorem upgrades_are_whole (lib : Flash φ) (available : Bool) (sockets : List Socket) (flash : φ) :
    let r := serveAll lib available sockets ⟨flash, [], false⟩
    ∃ images : List (List UInt8), r.2.track.upgraded = images.map some ∧
      List.Forall₂ (fun socket image => Sent socket.stream image) (uploaders sockets r.1) images ∧
      (r.2.reboot = true ↔ images ≠ []) := by
  obtain ⟨images, hupgraded, hsent, hreboot⟩ :=
    serveAll_uploads lib available sockets ⟨flash, [], false⟩
  refine ⟨images, hupgraded, hsent, hreboot.trans ?_⟩
  simp

/-! ## A proper upload -/

/-- The header of an upload of `n` bytes. -/
structure UploadHeader (header : List UInt8) (n : Nat) : Prop where
  post : ascii "POST /ota " <+: header
  ends : EmptyLine header (header.length - (ascii "\r\n\r\n").length)
  length : LengthLine header n
  text : ∀ b ∈ header, b ≠ 0
  fits : header.length < REQUEST_BYTES

section Proper

variable {header : List UInt8} {n : Nat}

theorem UploadHeader.headerEnd (h : UploadHeader header n) :
    findHeaderEnd header = some (header.length - 4) :=
  (findHeaderEnd_iff _ _).mpr h.ends

theorem UploadHeader.line (h : UploadHeader header n) : [0x0a] <:+ header := by
  have hfits := firstMatch_fits window_headerEnd h.headerEnd
  have hfour : (ascii "\r\n\r\n").length = 4 := rfl
  have hends := h.ends.1
  rw [hfour] at hends
  have hsuffix := List.drop_suffix (header.length - 4) header
  rw [← hends.eq_of_length (by rw [hfour, List.length_drop]; omega)] at hsuffix
  exact (List.suffix_append (ascii "\r\n\r") [0x0a]).trans hsuffix

/-- As much of the header as has come ends where the header does. -/
theorem UploadHeader.headerEnd_eq (h : UploadHeader header n) (request stream more : List UInt8)
    (hsplit : request ++ stream = header ++ more) :
    findHeaderEnd (cString request) =
      if header.length ≤ request.length then some (header.length - 4) else none := by
  have hfits := firstMatch_fits window_headerEnd h.headerEnd
  split
  · rename_i hwhole
    obtain ⟨seen, hseen⟩ := List.prefix_of_prefix_length_le (hsplit ▸ List.prefix_append header more)
      (List.prefix_append request stream) hwhole
    rw [← hseen, cString_append h.text]
    exact firstMatch_append window_headerEnd h.headerEnd _
  · rename_i hpart
    have hprefix := List.prefix_of_prefix_length_le (List.prefix_append request stream)
      (hsplit ▸ List.prefix_append header more) (by omega)
    rw [List.prefix_iff_eq_take.mp hprefix, cString_self]
    · exact firstMatch_take window_headerEnd h.headerEnd (by omega)
    · intro b hb
      exact h.text b (List.mem_of_mem_take hb)

theorem UploadHeader.contentLength_eq (h : UploadHeader header n) (seen : List UInt8) :
    findContentLength (cString (header ++ seen)) = some n := by
  rw [cString_append h.text]
  exact findContentLength_append ((findContentLength_iff _ _).mpr h.length) h.line _

/-- There is one image in an upload, however its request was cut. -/
theorem UploadHeader.image_eq (h : UploadHeader header n) {more image : List UInt8}
    (hsent : Sent (header ++ more) image) : image = more.take n := by
  obtain ⟨request, headerEnd, ⟨stream, hsplit⟩, -, hend, hlength, himage⟩ := hsent
  have hfits := firstMatch_fits window_headerEnd h.headerEnd
  rw [← findHeaderEnd_iff, h.headerEnd_eq _ _ _ hsplit] at hend
  split at hend
  · rename_i hwhole
    obtain ⟨seen, hseen⟩ := List.prefix_of_prefix_length_le (hsplit ▸ List.prefix_append header more)
      (List.prefix_append request stream) hwhole
    rw [← hseen, ← findContentLength_iff, h.contentLength_eq] at hlength
    rw [← Option.some.inj hend, show (ascii "\r\n\r\n").length = 4 from rfl,
      Nat.sub_add_cancel (by omega), List.drop_left] at himage
    rw [Option.some.inj hlength]
    exact List.prefix_iff_eq_take.mp himage
  · exact absurd hend.symm (Option.some_ne_none _)

/-- The receive calls that are in time bring the whole header, and what else has come by then. -/
theorem readRequest_header (h : UploadHeader header n) (more : List UInt8) (later : List Arrival)
    (early : List Arrival) :
    ∀ (stream request : List UInt8), (∀ arrival ∈ early, arrival.time < HEADER_MS) →
      (∀ arrival ∈ early, 0 < arrival.bytes) → request ++ stream = header ++ more →
      request.length < header.length →
      header.length ≤ (early.map Arrival.bytes).sum + request.length →
      ∃ (seen stream' : List UInt8) (early' : List Arrival),
        readRequest (early ++ later) stream request =
          some (header ++ seen, ⟨stream', early' ++ later⟩) ∧
        seen ++ stream' = more ∧ early' <:+ early ∧
        early.length + request.length ≤ early'.length + (header ++ seen).length := by
  induction early with
  | nil =>
    intro stream request _ _ _ hpart henough
    rw [List.map_nil, List.sum_nil] at henough
    omega
  | cons arrival early ih =>
    intro stream request htime hbytes hsplit hpart henough
    have hfits := h.fits
    have hlengths := congrArg List.length hsplit
    simp only [List.length_append] at hlengths
    have hsoon := htime arrival List.mem_cons_self
    have hsome := hbytes arrival List.mem_cons_self
    rw [List.cons_append]
    unfold readRequest
    rw [if_pos (by omega)]
    dsimp only
    rw [if_neg (not_le.mpr hsoon)]
    set got := arrival.gives stream (REQUEST_BYTES - 1 - request.length) with hgot
    have hlength : got.length =
        min (min arrival.bytes (REQUEST_BYTES - 1 - request.length)) stream.length := by
      rw [hgot, Arrival.gives, List.length_take]
    have hrest : got ++ stream.drop got.length = stream :=
      List.prefix_iff_eq_append.mp (gives_leads arrival stream _)
    have hsplit' : (request ++ got) ++ stream.drop got.length = header ++ more := by
      rw [List.append_assoc, hrest, hsplit]
    rw [if_neg (by omega), h.headerEnd_eq _ _ _ hsplit']
    split
    · rename_i hwhole
      obtain ⟨seen, hseen⟩ := List.prefix_of_prefix_length_le
        (hsplit' ▸ List.prefix_append header more) (List.prefix_append (request ++ got) _) hwhole
      rw [← hseen, List.append_assoc] at hsplit'
      rw [if_pos (Option.isSome_some), ← hseen]
      refine ⟨seen, stream.drop got.length, early, rfl, List.append_cancel_left hsplit',
        List.suffix_cons arrival early, ?_⟩
      rw [hseen, List.length_append, List.length_cons]
      omega
    · rename_i hshort
      -- A call that does not complete the header has all the bytes that it could give.
      rw [not_le, List.length_append] at hshort
      rw [List.map_cons, List.sum_cons] at henough
      obtain ⟨seen, stream', early', hread, hmore, hsuffix, hle⟩ := ih _ _
        (fun arrival' hmem => htime arrival' (List.mem_cons_of_mem _ hmem))
        (fun arrival' hmem => hbytes arrival' (List.mem_cons_of_mem _ hmem)) hsplit'
        (by rw [List.length_append]; exact hshort)
        (by rw [List.length_append]; omega)
      rw [if_neg (by simp)]
      refine ⟨seen, stream', early', hread, hmore, hsuffix.trans (List.suffix_cons _ _), ?_⟩
      rw [@List.length_append _ request] at hle
      rw [List.length_cons]
      omega

theorem receiveImage_all (lib : Flash φ) {contentLength received : Nat}
    (hall : contentLength ≤ received) (arrivals : List Arrival) (stream : List UInt8)
    (device : Device φ) :
    receiveImage lib contentLength arrivals stream received device = (none, device) := by
  cases arrivals with
  | nil =>
    unfold receiveImage
    exact if_neg (not_lt.mpr hall)
  | cons arrival arrivals =>
    unfold receiveImage
    exact if_neg (not_lt.mpr hall)

/-- With a byte in each turn and a flash that never fails, the image is complete in the end. -/
theorem receiveImage_complete {lib : Flash φ} (hlib : ∀ flash call, (lib.call flash call).1 = true)
    (contentLength : Nat) (after : List Arrival) (arrivals : List Arrival) :
    ∀ (stream : List UInt8) {received : Nat} (device : Device φ),
      (∀ arrival ∈ arrivals, 0 < arrival.bytes) → contentLength ≤ received + arrivals.length →
      contentLength ≤ received + stream.length →
      (receiveImage lib contentLength (arrivals ++ after) stream received device).1 = none := by
  induction arrivals with
  | nil =>
    intro stream received device _ henough _
    exact congrArg Prod.fst (receiveImage_all lib henough after stream device)
  | cons arrival arrivals ih =>
    intro stream received device hbytes henough hstream
    rw [List.cons_append]
    unfold receiveImage
    dsimp only
    split
    · rename_i hmore
      have hsome := hbytes arrival List.mem_cons_self
      have hchunk : OTA_CHUNK = 1024 := rfl
      set buffer := arrival.gives stream (min (contentLength - received) OTA_CHUNK) with hbuffer
      have hlength : 0 < buffer.length ∧ buffer.length ≤ stream.length := by
        rw [hbuffer, Arrival.gives, List.length_take]
        omega
      rw [List.length_cons] at henough
      rw [if_neg (by omega), if_neg]
      · apply ih
        · exact fun arrival' hmem => hbytes arrival' (List.mem_cons_of_mem _ hmem)
        · omega
        · rw [List.length_drop]
          omega
      · rw [Device.call, hlib]
        decide
    · rfl

theorem finishImage_done {lib : Flash φ} (hlib : ∀ flash call, (lib.call flash call).1 = true)
    (device : Device φ) : (finishImage lib device).1 = rebooting := by
  simp [finishImage, Device.call, hlib]

theorem writeImage_done {lib : Flash φ} (hlib : ∀ flash call, (lib.call flash call).1 = true)
    {contentLength : Nat} {buffered stream : List UInt8} {arrivals : List Arrival}
    (after : List Arrival) (hbytes : ∀ arrival ∈ arrivals, 0 < arrival.bytes)
    (henough : contentLength ≤ buffered.length + arrivals.length)
    (hstream : contentLength ≤ buffered.length + stream.length) (device : Device φ) :
    (writeImage lib contentLength buffered ⟨stream, arrivals ++ after⟩ device).1 = rebooting := by
  have hcall : ∀ (device : Device φ) call, (device.call lib call).1 = true :=
    fun device call => hlib device.flash call
  unfold writeImage
  dsimp only
  rw [if_neg (by rw [hcall]; decide)]
  have hfirst : (if buffered.length = 0 then (true, (device.call lib .init).2)
      else (device.call lib .init).2.call lib (.write buffered)).1 = true := by
    split
    · rfl
    · exact hcall ..
  rw [if_neg (by rw [hfirst]; decide)]
  split
  · rename_i reply device' hreceived
    have hnone := receiveImage_complete hlib contentLength after arrivals stream
      (if buffered.length = 0 then (true, (device.call lib .init).2)
        else (device.call lib .init).2.call lib (.write buffered)).2 hbytes henough hstream
    rw [hreceived] at hnone
    exact absurd hnone (Option.some_ne_none _)
  · exact finishImage_done hlib _

end Proper

/-- An upload with a proper header succeeds, in whatever pieces it comes and whatever comes behind
it. The receive calls of the first 500 ms have to bring the header, each one up to the end of the
image has to have a byte, however late, and the flash must not fail. -/
theorem upload_succeeds {lib : Flash φ} (hlib : ∀ flash call, (lib.call flash call).1 = true)
    {header image : List UInt8} (h : UploadHeader header image.length) (rest : List UInt8)
    {early later : List Arrival} (after : List Arrival)
    (htime : ∀ arrival ∈ early, arrival.time < HEADER_MS)
    (hheader : header.length ≤ (early.map Arrival.bytes).sum)
    (hbytes : ∀ arrival ∈ early ++ later, 0 < arrival.bytes)
    (henough : header.length + image.length ≤ (early ++ later).length) (device : Device φ) :
    let r := serve lib true ⟨header ++ (image ++ rest), early ++ (later ++ after)⟩ device
    r.1 = .upload rebooting ∧ r.2.reboot = true ∧
      r.2.track.upgraded = device.track.upgraded ++ [some image] := by
  have hfour := firstMatch_fits window_headerEnd h.headerEnd
  obtain ⟨seen, stream, early', hread, hmore, hsuffix, hle⟩ :=
    readRequest_header h (image ++ rest) (later ++ after) early _ [] htime
      (fun arrival hmem => hbytes arrival (List.mem_append_left _ hmem)) (List.nil_append _)
      (by rw [List.length_nil]; omega) (by omega)
  have hend := h.headerEnd_eq (header ++ seen) stream (image ++ rest)
    (by rw [List.append_assoc, hmore])
  rw [if_pos (by rw [List.length_append]; omega)] at hend
  have hpost : startsWith id (ascii "POST /ota ") (cString (header ++ seen)) := by
    rw [startsWith_post, cString_append h.text]
    exact h.post.trans (List.prefix_append _ _)
  have hlengths := congrArg List.length hmore
  rw [List.length_append, List.length_nil] at hle
  simp only [List.length_append] at hlengths henough
  have hdone : (serve lib true ⟨header ++ (image ++ rest), early ++ (later ++ after)⟩ device).1 =
      .upload rebooting := by
    unfold serve
    dsimp only
    rw [hread]
    dsimp only
    rw [hend, if_neg (by simp), if_pos (by rw [hpost]; rfl)]
    unfold otaHandleRequest
    rw [h.contentLength_eq, hend]
    dsimp only
    rw [Nat.sub_add_cancel (by omega), List.drop_left, ← List.append_assoc early']
    congr 1
    apply writeImage_done hlib
    · intro arrival hmem
      apply hbytes arrival
      rcases List.mem_append.mp hmem with hearly | hlater
      · exact List.mem_append_left _ (hsuffix.subset hearly)
      · exact List.mem_append_right _ hlater
    · rw [List.length_take, List.length_append]
      omega
    · rw [List.length_take]
      omega
  obtain ⟨image', hsent, hupgraded, hreboot⟩ := (serve_uploads lib true _ device).2 hdone
  rw [h.image_eq hsent, List.take_left] at hupgraded
  exact ⟨hdone, hreboot, hupgraded⟩

/-- A flash that does everything. -/
def goodFlash : Flash Unit := ⟨fun _ _ => (true, ())⟩

abbrev threeHeader : List UInt8 := ascii "POST /ota HTTP/1.1\r\ncontent-length: 3\r\n\r\n"

theorem threeHeader_upload : UploadHeader threeHeader 3 where
  post := by decide +kernel
  ends := (findHeaderEnd_iff _ _).mp (by decide +kernel)
  length := (findContentLength_iff _ _).mp (by decide +kernel)
  text := by decide +kernel
  fits := by decide +kernel

/-- Three bytes of an image, in receive calls of seven bytes, the last ones of them much later. -/
theorem upload_succeeds_three :
    let r := serve goodFlash true
      ⟨threeHeader ++ ([0x65, 0, 0x66] ++ [0x0a]),
        List.replicate 7 ⟨499, 7⟩ ++ (List.replicate 64 ⟨9000, 7⟩ ++ [])⟩ ⟨(), [], false⟩
    r.1 = .upload rebooting ∧ r.2.reboot = true ∧
      r.2.track.upgraded = [] ++ [some [0x65, 0, 0x66]] := by
  refine upload_succeeds (fun _ _ => rfl) threeHeader_upload [0x0a] [] ?_ ?_ ?_ ?_ ⟨(), [], false⟩
  · decide +kernel
  · decide +kernel
  · decide +kernel
  · decide +kernel

end EmbeddedAudio.Ota
