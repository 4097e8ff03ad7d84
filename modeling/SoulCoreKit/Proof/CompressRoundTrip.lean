import SoulCoreKit.Lib.StoredBlocks
import SoulCoreKit.Utils.CompressUtils

/-!
# The compression round trip

The decoder appends every chunk once and stops, so whatever the encoder returns is read back. But the
encoder has room for 1024 bytes more than the data and gives up where zlib needs more: large data that does
not compress is lost.
-/

namespace SoulCoreKit.Utils

open CompressUtils

variable {Stream : Type}

/-- The two formats. -/
def Format (windowBits : Int) : Prop := windowBits = 15 + 16 ∨ windowBits = 15

/-- What zlib documents. `need` is the room in which `deflate` completes a stream, and a stream is
`Pending` when `inflate` still has these bytes to write. -/
structure Zlib.Lawful (zlib : Zlib Stream) (need : Int → Int → Bytes → Nat)
    (Pending : Stream → Bytes → Prop) : Prop where
  init_iff : ∀ {windowBits} level, Format windowBits →
    (zlib.deflateInit2 level windowBits = .Z_OK ↔ -1 ≤ level ∧ level ≤ 9)
  end_iff : ∀ {windowBits level} input availOut, Format windowBits → -1 ≤ level → level ≤ 9 →
    ((zlib.deflate level windowBits input availOut).1 = .Z_STREAM_END ↔
      need windowBits level input ≤ availOut)
  need_le : ∀ {windowBits level} input, Format windowBits → -1 ≤ level → level ≤ 9 →
    need windowBits level input ≤ input.length + 5 * (input.length / 16383 + 1) + 18
  written : ∀ {windowBits level input availOut written}, Format windowBits →
    zlib.deflate level windowBits input availOut = (.Z_STREAM_END, written) →
    written ≠ [] ∧ written.length ≤ availOut
  inverse : ∀ {windowBits level input availOut written}, Format windowBits →
    zlib.deflate level windowBits input availOut = (.Z_STREAM_END, written) →
    ∃ strm, zlib.inflateInit2 windowBits written = (.Z_OK, strm) ∧ Pending strm input
  inflate : ∀ {strm rest} availOut, Pending strm rest → 0 < availOut →
    (∃ strm', zlib.inflate strm availOut = (.Z_STREAM_END, rest, strm')) ∨
      ∃ strm', zlib.inflate strm availOut = (.Z_OK, rest.take availOut, strm') ∧
        availOut ≤ rest.length ∧ Pending strm' (rest.drop availOut)

section Laws

variable {zlib : Zlib Stream} {need : Int → Int → Bytes → Nat} {Pending : Stream → Bytes → Prop}

/-- The loop writes what is pending after what it has written. The fuel is one turn for each full buffer
and one more. -/
theorem Zlib.Lawful.inflateLoop (hzlib : zlib.Lawful need Pending) {fuel : Nat} {strm : Stream}
    {rest : Bytes} (hpending : Pending strm rest) (hfuel : rest.length / 8192 < fuel)
    (output : Bytes) : inflateLoop zlib fuel strm output = some (output ++ rest) := by
  induction fuel generalizing strm rest output with
  | zero => exact absurd hfuel (Nat.not_lt_zero _)
  | succ fuel ih =>
      rcases hzlib.inflate 8192 hpending (by decide) with
        ⟨strm', hend⟩ | ⟨strm', hmore, hlength, hpending'⟩
      · simp [CompressUtils.inflateLoop, hend]
      · have hrest : (rest.drop 8192).length / 8192 < fuel := by
          rw [List.length_drop]
          omega
        simp [CompressUtils.inflateLoop, hmore, ih hpending' hrest]

theorem Zlib.Lawful.inflateDecompress (hzlib : zlib.Lawful need Pending) {windowBits level : Int}
    (hformat : Format windowBits) {input written : Bytes} {availOut : Nat}
    (hwritten : zlib.deflate level windowBits input availOut = (.Z_STREAM_END, written))
    (hsize : written.length < 2 ^ 31) {fuel : Nat} (hfuel : input.length / 8192 < fuel) :
    inflateDecompress zlib fuel written windowBits = some input := by
  obtain ⟨strm, hinit, hpending⟩ := hzlib.inverse hformat hwritten
  have hempty : written.isEmpty = false := by simpa using (hzlib.written hformat hwritten).1
  have htake : written.take (written.length % 2 ^ 32) = written := by
    rw [Nat.mod_eq_of_lt (by omega), List.take_length]
  unfold CompressUtils.inflateDecompress
  rw [hempty, htake, hinit]
  exact hzlib.inflateLoop hpending hfuel []

theorem toInt_of_lt {n : Nat} (hn : n < 2 ^ 31) : toInt n = n := by
  unfold toInt
  rw [Int.bmod_eq_of_le] <;> omega

theorem toInt_toNat_of_le {n : Nat} (hn : 2 ^ 31 ≤ n) (hn' : n < 2 ^ 32) : (toInt n).toNat = 0 := by
  have hneg : toInt n = (n : Int) - 2 ^ 32 := by
    unfold toInt
    rw [Int.bmod_def, Int.emod_eq_of_lt (by omega) (by omega), if_neg (by omega)]
    rfl
  omega

theorem resize_written (written : Bytes) (n : Nat) :
    resize (written ++ List.replicate (n - written.length) 0) written.length = written := by
  have hpadding : written.length - (written.length + (n - written.length)) = 0 := by omega
  simp [resize, hpadding]

/-- zlib completes the stream in the room that the encoder gives it, and its size is an `int`. -/
def Fits (zlib : Zlib Stream) (need : Int → Int → Bytes → Nat) (windowBits level : Int)
    (data : Bytes) : Prop :=
  -1 ≤ level ∧ level ≤ 9 ∧ need windowBits level data ≤ data.length + 1024 ∧
    (zlib.deflate level windowBits data (data.length + 1024)).2.length < 2 ^ 31

theorem deflateCompress_eq {windowBits level : Int} {data : Bytes} (hdata : data ≠ [])
    (hsize : data.length < 2 ^ 31) (hinit : zlib.deflateInit2 level windowBits = .Z_OK) {ret : Ret}
    {written : Bytes} (hdeflate : zlib.deflate level windowBits data (data.length + 1024) = (ret, written)) :
    deflateCompress zlib data level windowBits =
      if ret ≠ .Z_STREAM_END then []
      else resize (written ++ List.replicate (data.length + 1024 - written.length) 0)
        (toInt written.length) := by
  have hempty : data.isEmpty = false := by simpa using hdata
  have hinput : data.take (data.length % 2 ^ 32) = data := by
    rw [Nat.mod_eq_of_lt (by omega), List.take_length]
  have hroom : (data.length + 1024) % 2 ^ 32 = data.length + 1024 := Nat.mod_eq_of_lt (by omega)
  unfold CompressUtils.deflateCompress
  rw [hempty, if_neg Bool.false_ne_true, hinit, if_neg (not_not_intro rfl), hinput, hroom]
  simp only [hdeflate]

/-- The encoder gives a complete stream exactly if the data fits, and nothing where it does not. -/
theorem Zlib.Lawful.deflateCompress (hzlib : zlib.Lawful need Pending) {windowBits : Int}
    (hformat : Format windowBits) {data : Bytes} (hdata : data ≠ []) (hsize : data.length < 2 ^ 31)
    (level : Int) :
    (Fits zlib need windowBits level data ∧
      ∃ written, zlib.deflate level windowBits data (data.length + 1024) = (.Z_STREAM_END, written) ∧
        written.length < 2 ^ 31 ∧ deflateCompress zlib data level windowBits = written) ∨
    (¬Fits zlib need windowBits level data ∧ deflateCompress zlib data level windowBits = []) := by
  by_cases hinit : zlib.deflateInit2 level windowBits = .Z_OK
  · obtain ⟨hlow, hhigh⟩ := (hzlib.init_iff level hformat).mp hinit
    have hend := hzlib.end_iff data (data.length + 1024) hformat hlow hhigh
    cases hdeflate : zlib.deflate level windowBits data (data.length + 1024) with
    | mk ret written =>
        have hcompress := deflateCompress_eq hdata hsize hinit hdeflate
        rw [hdeflate] at hend
        by_cases hret : ret = .Z_STREAM_END
        · subst hret
          have hwritten := (hzlib.written hformat hdeflate).2
          have hneed := hend.mp rfl
          by_cases hint : written.length < 2 ^ 31
          · refine .inl ⟨⟨hlow, hhigh, hneed, by rwa [hdeflate]⟩, written, rfl, hint, ?_⟩
            rw [hcompress, if_neg (not_not_intro rfl), toInt_of_lt hint, resize_written]
          · refine .inr ⟨fun hfits => hint (by simpa [hdeflate] using hfits.2.2.2), ?_⟩
            rw [hcompress, if_neg (not_not_intro rfl)]
            simp [resize, toInt_toNat_of_le (Nat.not_lt.mp hint) (by omega)]
        · refine .inr ⟨fun hfits => hret (hend.mpr hfits.2.2.1), ?_⟩
          rw [hcompress, if_pos hret]
  · refine .inr ⟨fun hfits => hinit ((hzlib.init_iff level hformat).mpr ⟨hfits.1, hfits.2.1⟩), ?_⟩
    simp [CompressUtils.deflateCompress, hinit]

/-- What comes back from the data, once there is fuel enough, is the data. -/
def RoundTrips (compress : Bytes → Int → Bytes) (decompress : Nat → Bytes → Option Bytes)
    (data : Bytes) (level : Int) : Prop :=
  ∃ enough, ∀ fuel, enough ≤ fuel → decompress fuel (compress data level) = some data

theorem Zlib.Lawful.roundTrips_iff (hzlib : zlib.Lawful need Pending) {windowBits : Int}
    (hformat : Format windowBits) {data : Bytes} (hsize : data.length < 2 ^ 31) (level : Int) :
    RoundTrips (fun data level => CompressUtils.deflateCompress zlib data level windowBits)
        (fun fuel data => CompressUtils.inflateDecompress zlib fuel data windowBits) data level ↔
      data = [] ∨ Fits zlib need windowBits level data := by
  by_cases hdata : data = []
  · subst hdata
    simp [RoundTrips, CompressUtils.deflateCompress, CompressUtils.inflateDecompress]
  rcases hzlib.deflateCompress hformat hdata hsize level with
    ⟨hfits, written, hwritten, hint, hcompress⟩ | ⟨hfits, hcompress⟩
  · refine iff_of_true ⟨data.length / 8192 + 1, ?_⟩ (.inr hfits)
    intro fuel hfuel
    simp only [hcompress]
    exact hzlib.inflateDecompress hformat hwritten hint hfuel
  · refine iff_of_false ?_ (not_or.mpr ⟨hdata, hfits⟩)
    rintro ⟨enough, hback⟩
    have hnothing := hback enough (Nat.le_refl enough)
    simp only [hcompress] at hnothing
    exact hdata (Option.some.inj hnothing).symm

/-- Either round trip gives the data back exactly if there is none or zlib completes its stream within
1024 bytes more than the data. -/
theorem roundTrips_iff_fits (hzlib : zlib.Lawful need Pending) {data : Bytes}
    (hsize : data.length < 2 ^ 31) (level : Int) :
    (RoundTrips (gzipCompress zlib) (gzipDecompress zlib) data level ↔
        data = [] ∨ Fits zlib need (15 + 16) level data) ∧
      (RoundTrips (zlibCompress zlib) (zlibDecompress zlib) data level ↔
        data = [] ∨ Fits zlib need 15 level data) :=
  ⟨hzlib.roundTrips_iff (.inl rfl) hsize level, hzlib.roundTrips_iff (.inr rfl) hsize level⟩

/-- Up to about three million bytes everything fits. -/
theorem Zlib.Lawful.fits_of_small (hzlib : zlib.Lawful need Pending) {windowBits level : Int}
    (hformat : Format windowBits) (hlow : -1 ≤ level) (hhigh : level ≤ 9) {data : Bytes}
    (hsize : data.length < 16383 * 201) : Fits zlib need windowBits level data := by
  have hneed := hzlib.need_le data hformat hlow hhigh
  have hroom : need windowBits level data ≤ data.length + 1024 := by omega
  refine ⟨hlow, hhigh, hroom, ?_⟩
  cases hdeflate : zlib.deflate level windowBits data (data.length + 1024) with
  | mk ret written =>
      have hend := (hzlib.end_iff data (data.length + 1024) hformat hlow hhigh).mpr hroom
      rw [hdeflate] at hend
      obtain rfl : ret = .Z_STREAM_END := hend
      exact Nat.lt_of_le_of_lt (hzlib.written hformat hdeflate).2 (by omega)

end Laws

/-! ### A zlib that stores -/

open StoredBlocks in
def wrapper (windowBits : Int) : Wrapper := if windowBits = 15 + 16 then gzip else zlib

/-- zlib as it is at level 0: the stream has the data in stored blocks. A stream that is being read is what
it has still to write, or an error. -/
def storedZlib : Zlib (Option Bytes) where
  deflateInit2 level _ := if -1 ≤ level ∧ level ≤ 9 then .Z_OK else .Z_STREAM_ERROR
  deflate _ windowBits input availOut :=
    let stream := StoredBlocks.encode (wrapper windowBits) input
    if stream.length ≤ availOut then (.Z_STREAM_END, stream) else (.Z_OK, stream.take availOut)
  inflateInit2 windowBits input := (.Z_OK, StoredBlocks.decode (wrapper windowBits) input)
  inflate strm availOut :=
    match strm with
    | none => (.Z_DATA_ERROR, [], none)
    | some rest =>
        if rest.length ≤ availOut then (.Z_STREAM_END, rest, some [])
        else (.Z_OK, rest.take availOut, some (rest.drop availOut))
  availIn _ := 0

def storedNeed (windowBits _level : Int) (input : Bytes) : Nat :=
  (StoredBlocks.encode (wrapper windowBits) input).length

theorem storedNeed_eq {windowBits : Int} (hformat : Format windowBits) (level : Int) (input : Bytes) :
    storedNeed windowBits level input =
      (if windowBits = 15 + 16 then 18 else 6) + input.length + 5 * ((input.length - 1) / 65535 + 1) := by
  unfold storedNeed
  rw [StoredBlocks.length_encode]
  rcases hformat with rfl | rfl
  · simp [wrapper, StoredBlocks.gzip, StoredBlocks.length_littleEndian]
  · simp [wrapper, StoredBlocks.zlib, StoredBlocks.length_littleEndian]

theorem storedZlib_deflate {windowBits level : Int} {input written : Bytes} {availOut : Nat}
    (hwritten : storedZlib.deflate level windowBits input availOut = (.Z_STREAM_END, written)) :
    written = StoredBlocks.encode (wrapper windowBits) input ∧ written.length ≤ availOut := by
  simp only [storedZlib] at hwritten
  by_cases hroom : (StoredBlocks.encode (wrapper windowBits) input).length ≤ availOut
  · rw [if_pos hroom] at hwritten
    obtain rfl := (Prod.mk.inj hwritten).2
    exact ⟨rfl, hroom⟩
  · rw [if_neg hroom] at hwritten
    exact absurd (Prod.mk.inj hwritten).1 (by simp)

theorem storedZlib_lawful : storedZlib.Lawful storedNeed fun strm rest => strm = some rest where
  init_iff level _ := by simp [storedZlib]
  end_iff input availOut _ _ _ := by
    simp only [storedZlib, storedNeed]
    split_ifs with hroom
    · simp [hroom]
    · simp [hroom]
  need_le input hformat _ _ := by
    rw [storedNeed_eq hformat]
    split_ifs <;> omega
  written hformat hwritten := by
    obtain ⟨rfl, hroom⟩ := storedZlib_deflate hwritten
    refine ⟨?_, hroom⟩
    rw [← List.length_pos_iff, StoredBlocks.length_encode]
    omega
  inverse _ hwritten := by
    obtain ⟨rfl, -⟩ := storedZlib_deflate hwritten
    exact ⟨_, rfl, StoredBlocks.decode_encode _ _⟩
  inflate := by
    rintro strm rest availOut rfl _
    simp only [storedZlib]
    by_cases hroom : rest.length ≤ availOut
    · rw [if_pos hroom]
      exact .inl ⟨_, rfl⟩
    · rw [if_neg hroom]
      exact .inr ⟨_, rfl, by omega, rfl⟩

theorem roundTrips_stored :
    RoundTrips (gzipCompress storedZlib) (gzipDecompress storedZlib) [104, 105] 0 ∧
      RoundTrips (zlibCompress storedZlib) (zlibDecompress storedZlib) [104, 105] 0 := by
  have hiff := roundTrips_iff_fits storedZlib_lawful (by decide : ([104, 105] : Bytes).length < 2 ^ 31) 0
  exact ⟨hiff.1.mpr (.inr (storedZlib_lawful.fits_of_small (.inl rfl) (by decide) (by decide)
      (by decide))),
    hiff.2.mpr (.inr (storedZlib_lawful.fits_of_small (.inr rfl) (by decide) (by decide)
      (by decide)))⟩

/-- Sixteen million bytes at level 0 are 245 stored blocks, with five bytes before each. -/
theorem not_roundTrips_stored :
    (List.replicate 16000000 (0 : UInt8)).length < 2 ^ 31 ∧
      ¬RoundTrips (gzipCompress storedZlib) (gzipDecompress storedZlib)
        (List.replicate 16000000 0) 0 ∧
      ¬RoundTrips (zlibCompress storedZlib) (zlibDecompress storedZlib)
        (List.replicate 16000000 0) 0 := by
  have hlost : ∀ windowBits, Format windowBits →
      ¬RoundTrips (fun data level => deflateCompress storedZlib data level windowBits)
        (fun fuel data => inflateDecompress storedZlib fuel data windowBits)
        (List.replicate 16000000 0) 0 := by
    intro windowBits hformat hback
    rcases (storedZlib_lawful.roundTrips_iff hformat (by rw [List.length_replicate]; decide) 0).mp
      hback with hnil | hfits
    · exact absurd (congrArg List.length hnil) (by rw [List.length_replicate]; decide)
    · have hneed := hfits.2.2.1
      rw [storedNeed_eq hformat, List.length_replicate] at hneed
      split_ifs at hneed <;> omega
  refine ⟨?_, hlost _ (.inl rfl), hlost _ (.inr rfl)⟩
  rw [List.length_replicate]
  decide

end SoulCoreKit.Utils
