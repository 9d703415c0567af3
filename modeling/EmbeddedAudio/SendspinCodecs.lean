-- The codecs that the client advertises in its hello, and the codecs that it
-- admits in a stream/start of the server.
import EmbeddedAudio.SendspinClient

namespace EmbeddedAudio.Sendspin

/-- The codec stands in an entry of `supported_formats` in the hello. -/
def Advertised (config : Config) (codec : List UInt8) : Prop :=
  ∃ format, formatText codec format ∈ supportedFormats config

/-! ## Reading an entry -/

/-- A byte that a JSON string has as it is. -/
def plainByte (b : UInt8) : Bool := b != QUOTE && b != BACKSLASH && 0x20 ≤ b

theorem escapeByte_plain {b : UInt8} (h : plainByte b = true) : escapeByte b = [b] := by
  unfold plainByte at h
  simp only [Bool.and_eq_true, bne_iff_ne, ne_eq, decide_eq_true_eq] at h
  obtain ⟨⟨hquote, hbackslash⟩, hlow⟩ := h
  have hctl : ∀ c : UInt8, c < 0x20 → b ≠ c := by
    intro c hc heq
    subst heq
    exact absurd hlow (UInt8.not_le.mpr hc)
  unfold escapeByte
  rw [if_neg hquote, if_neg hbackslash, if_neg (hctl _ (by decide)), if_neg (hctl _ (by decide)),
    if_neg (hctl _ (by decide)), if_neg (hctl _ (by decide)), if_neg (hctl _ (by decide)),
    if_neg (UInt8.not_lt.mpr hlow)]

/-- A byte is written as it is, or behind a backslash. -/
theorem escapeByte_head (c : UInt8) :
    (escapeByte c = [c] ∧ c ≠ QUOTE) ∨ ∃ rest, escapeByte c = BACKSLASH :: rest := by
  unfold escapeByte
  split_ifs
  · exact .inr ⟨_, rfl⟩
  · exact .inr ⟨_, rfl⟩
  · exact .inr ⟨_, rfl⟩
  · exact .inr ⟨_, rfl⟩
  · exact .inr ⟨_, rfl⟩
  · exact .inr ⟨_, rfl⟩
  · exact .inr ⟨_, rfl⟩
  · exact .inr ⟨_, rfl⟩
  · exact .inl ⟨rfl, ‹_›⟩

/-- A string of plain bytes is read back from its JSON text, whatever follows. -/
theorem escaped_plain {name s x y : List UInt8} (hplain : ∀ b ∈ name, plainByte b = true)
    (h : s.flatMap escapeByte ++ QUOTE :: x = name ++ QUOTE :: y) : s = name := by
  induction name generalizing s with
  | nil =>
    cases s with
    | nil => rfl
    | cons c s =>
      rw [List.flatMap_cons, List.append_assoc] at h
      rcases escapeByte_head c with ⟨heq, hne⟩ | ⟨rest, heq⟩
      · rw [heq] at h
        exact absurd (List.cons.inj h).1 hne
      · rw [heq] at h
        exact absurd (List.cons.inj h).1 (by decide)
  | cons b name ih =>
    have hb := hplain b List.mem_cons_self
    cases s with
    | nil =>
      have heq := (List.cons.inj h).1
      subst heq
      exact absurd hb (by decide)
    | cons c s =>
      rw [List.flatMap_cons, List.append_assoc] at h
      rcases escapeByte_head c with ⟨heq, -⟩ | ⟨rest, heq⟩
      · rw [heq] at h
        obtain ⟨rfl, htail⟩ := List.cons.inj h
        rw [ih (fun x hx => hplain x (List.mem_cons_of_mem _ hx)) htail]
      · rw [heq] at h
        have heq := (List.cons.inj h).1
        subst heq
        exact absurd hb (by decide)

theorem flatMap_escapeByte {name : List UInt8} (hplain : ∀ b ∈ name, plainByte b = true) :
    name.flatMap escapeByte = name := by
  induction name with
  | nil => rfl
  | cons b name ih =>
    rw [List.flatMap_cons, escapeByte_plain (hplain b List.mem_cons_self),
      ih (fun x hx => hplain x (List.mem_cons_of_mem _ hx))]
    rfl

/-- The codec of an entry is the one that it was written for. -/
theorem formatText_codec {name s : List UInt8} {f g : AudioFormat}
    (hplain : ∀ b ∈ name, plainByte b = true) (h : formatText s f = formatText name g) :
    s = name := by
  unfold formatText jsonString at h
  simp only [List.append_assoc, List.cons_append] at h
  have hquoted := List.append_cancel_left h
  rw [flatMap_escapeByte hplain] at hquoted
  exact escaped_plain hplain (List.cons.inj hquoted).2

/-! ## Names and codecs -/

theorem codecName_plain {codec : Codec} {name : List UInt8} (h : codecName codec = some name) :
    ∀ b ∈ name, plainByte b = true := by
  cases codec with
  | unknown => cases h
  | _ =>
    cases h
    exact List.all_eq_true.mp (by decide)

theorem codecName_none {codec : Codec} (h : codecName codec = none) : codec = .unknown := by
  cases codec with
  | unknown => rfl
  | _ => cases h

/-- `codec_name` and `codec_from_value` go the same way, there and back. -/
theorem codecName_iff {v : JsonValue} (hv : v.type = .string) (codec : Codec) :
    codecName codec = some v.string.bytes ↔ codec ≠ .unknown ∧ codecFromValue v = codec := by
  have hequals : ∀ text, jsonStringEquals v text = decide (v.string.bytes = ascii text) := by
    intro text
    simp [jsonStringEquals, hv, Bool.beq_eq_decide_eq]
  unfold codecFromValue
  simp only [hequals, decide_eq_true_eq]
  generalize v.string.bytes = s
  constructor
  · intro h
    cases codec <;> cases h <;> exact ⟨by decide, by decide⟩
  · rintro ⟨hne, h⟩
    split_ifs at h with hpcm hflac hopus hmp3 hvorbis
    · rw [← h, hpcm]
      rfl
    · rw [← h, hflac]
      rfl
    · rw [← h, hopus]
      rfl
    · rw [← h, hmp3]
      rfl
    · rw [← h, hvorbis]
      rfl
    · exact absurd h.symm hne

/-- The names in the hello: those of the configured formats that have one, or `pcm`. -/
theorem advertised_iff (config : Config) (codec : List UInt8) :
    Advertised config codec ↔
      (∃ f ∈ config.formats, codecName f.codec = some codec) ∨
        ((∀ f ∈ config.formats, codecName f.codec = none) ∧ codec = ascii "pcm") := by
  unfold Advertised supportedFormats
  generalize htexts : (config.formats.filterMap fun f =>
    (codecName f.codec).map fun name => formatText name f) = texts
  have hmem : ∀ text, text ∈ texts ↔ ∃ f ∈ config.formats, ∃ name,
      codecName f.codec = some name ∧ formatText name f = text := by
    intro text
    simp [← htexts, List.mem_filterMap, Option.map_eq_some_iff]
  have hnone : texts = [] ↔ ∀ f ∈ config.formats, codecName f.codec = none := by
    simp [← htexts, List.filterMap_eq_nil_iff]
  constructor
  · rintro ⟨format, htext⟩
    cases texts with
    | nil =>
      have heq := List.mem_singleton.mp htext
      have hplain := @codecName_plain .pcm _ rfl
      exact .inr ⟨hnone.mp rfl, formatText_codec hplain heq⟩
    | cons first rest =>
      obtain ⟨f, hf, name, hname, heq⟩ := (hmem _).mp htext
      obtain rfl := formatText_codec (codecName_plain hname) heq.symm
      exact .inl ⟨f, hf, hname⟩
  · rintro (⟨f, hf, hname⟩ | ⟨hall, rfl⟩)
    · have htext := (hmem _).mpr ⟨f, hf, codec, hname, rfl⟩
      cases texts with
      | nil => cases htext
      | cons first rest => exact ⟨f, htext⟩
    · rw [hnone.mpr hall]
      exact ⟨_, List.mem_singleton_self _⟩

/-! ## Admitting what was advertised -/

/-- The client admits the codecs that it advertises, and no other. -/
def AdmitsAdvertised (config : Config) : Prop :=
  ∀ v : JsonValue, v.type = .string →
    (clientSupportsCodec config (codecFromValue v) = true ↔ Advertised config v.string.bytes)

theorem supports_iff (config : Config) (codec : Codec) :
    clientSupportsCodec config codec = true ↔
      (∃ f ∈ config.formats, f.codec = codec) ∨ (config.formats = [] ∧ codec = .pcm) := by
  unfold clientSupportsCodec
  split
  · rename_i hne
    simp [hne]
  · rename_i hempty
    rw [not_not] at hempty
    simp [hempty]

/-- A codec that no client knows. -/
def unknownValue : JsonValue := { JsonValue.zero with type := .string, string := ⟨0, ascii "x"⟩ }

/-- For every list of formats, that is the case exactly if none of them is `UNKNOWN`. -/
theorem admitsAdvertised_iff (config : Config) :
    AdmitsAdvertised config ↔ ∀ f ∈ config.formats, f.codec ≠ .unknown := by
  constructor
  · intro h f hf hunknown
    have hadmits : clientSupportsCodec config (codecFromValue unknownValue) = true :=
      (supports_iff config _).mpr (.inl ⟨f, hf, by rw [hunknown]; decide⟩)
    have hadvertised := (advertised_iff config _).mp ((h unknownValue rfl).mp hadmits)
    rcases hadvertised with ⟨g, -, hname⟩ | ⟨-, hpcm⟩
    · obtain ⟨hne, heq⟩ := (codecName_iff (v := unknownValue) rfl g.codec).mp hname
      exact hne (heq.symm.trans (by decide))
    · exact absurd hpcm (by decide)
  · intro h v hv
    rw [supports_iff, advertised_iff]
    constructor
    · rintro (⟨f, hf, hcodec⟩ | ⟨hempty, hpcm⟩)
      · exact .inl ⟨f, hf, (codecName_iff hv _).mpr ⟨h f hf, hcodec.symm⟩⟩
      · refine .inr ⟨?_, ?_⟩
        · rw [hempty]
          exact List.forall_mem_nil _
        · have hname := (codecName_iff hv .pcm).mpr ⟨by decide, hpcm⟩
          exact (Option.some.inj hname).symm
    · rintro (⟨f, hf, hname⟩ | ⟨hall, hpcm⟩)
      · exact .inl ⟨f, hf, ((codecName_iff hv _).mp hname).2.symm⟩
      · refine .inr ⟨?_, ?_⟩
        · rw [List.eq_nil_iff_forall_not_mem]
          intro f hf
          exact h f hf (codecName_none (hall f hf))
        · have hname : codecName .pcm = some v.string.bytes := by rw [hpcm]; rfl
          exact ((codecName_iff hv _).mp hname).2

/-- A client whose only format is `UNKNOWN`. -/
def unknownOnly : Config := { (default : Config) with formats := [⟨.unknown, 48000, 2, 16⟩] }

/-- It advertises PCM and refuses it, and admits a codec that nobody knows. -/
theorem unknownOnly_misadmits : ¬ ∀ config, AdmitsAdvertised config := by
  intro h
  have hadmits : clientSupportsCodec unknownOnly (codecFromValue unknownValue) = true := by decide
  have hadvertised := (advertised_iff _ _).mp ((h unknownOnly unknownValue rfl).mp hadmits)
  rcases hadvertised with ⟨f, hf, hname⟩ | ⟨-, hpcm⟩
  · obtain rfl := List.mem_singleton.mp hf
    cases hname
  · exact absurd hpcm (by decide)

end EmbeddedAudio.Sendspin
