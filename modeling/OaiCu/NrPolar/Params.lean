import Mathlib.Data.Nat.Log
import Mathlib.Data.Nat.Bitwise

/-!
# NR polar codes: the parameters of a code (`nr_polar_init.c`, `nr_polar_procedures.c`)

Arrays are functions of the index. The messages of the broadcast channel and those of the control
channel have a CRC of 24 bits and no parity check bits. The generator matrix comes from
`nr_polar_kronecker_power_matrices`, which is a parameter here.
-/

namespace OaiCu.NrPolar

/-! ## Patterns -/

/-- `nr_polar_output_length`. The logarithms and their bounds are exact. -/
def nrPolarOutputLength (K E nMax : ℕ) : ℕ :=
  let n1 :=
    if 8 * E ≤ 9 * 2 ^ (Nat.clog 2 E - 1) ∧ 16 * (K / E) < 9 then Nat.clog 2 E - 1
    else Nat.clog 2 E
  let n2 := Nat.clog 2 (8 * K)
  2 ^ max 5 (min n2 (min n1 nMax))

def interleavingPatternTable : List ℕ :=
  [0, 2, 4, 7, 9, 14, 19, 20, 24, 25, 26, 28, 31, 34, 42, 45, 49, 50, 51, 53, 54, 56, 58, 59, 61,
    62, 65, 66, 67, 69, 70, 71, 72, 76, 77, 81, 82, 83, 87, 88, 89, 91, 93, 95, 98, 101, 104, 106,
    108, 110, 111, 113, 115, 118, 119, 120, 122, 123, 126, 127, 129, 132, 134, 138, 139, 140, 1,
    3, 5, 8, 10, 15, 21, 27, 29, 32, 35, 43, 46, 52, 55, 57, 60, 63, 68, 73, 78, 84, 90, 92, 94,
    96, 99, 102, 105, 107, 109, 112, 114, 116, 121, 124, 128, 130, 133, 135, 141, 6, 11, 16, 22,
    30, 33, 36, 44, 47, 64, 74, 79, 85, 97, 100, 103, 117, 125, 131, 136, 142, 12, 17, 23, 37, 48,
    75, 80, 86, 137, 143, 13, 18, 38, 144, 39, 145, 40, 146, 41, 147, 148, 149, 150, 151, 152,
    153, 154, 155, 156, 157, 158, 159, 160, 161, 162, 163]

/-- `nr_polar_interleaving_pattern`. -/
def nrPolarInterleavingPattern (K iIl : ℕ) : List ℕ :=
  if iIl = 0 then List.range K
  else (interleavingPatternTable.filter fun x => 164 - K ≤ x).map fun x => x - (164 - K)

def nrPolarSubblockInterleaverPattern : List ℕ :=
  [0, 1, 2, 4, 3, 5, 6, 7, 8, 16, 9, 17, 10, 18, 11, 19, 12, 20, 13, 21, 14, 22, 15, 23, 24, 25,
    26, 28, 27, 29, 30, 31]

/-- The sub-block interleaver `J`. -/
def subblock (N m : ℕ) : ℕ :=
  nrPolarSubblockInterleaverPattern.getD (32 * m / N) 0 * (N / 32) + m % (N / 32)

/-- `nr_polar_rate_matching_pattern`: repetition, puncturing or shortening. -/
def nrPolarRateMatchingPattern (K N E k : ℕ) : ℕ :=
  if N ≤ E then subblock N (k % N)
  else if 16 * K ≤ 7 * E then subblock N (k + N - E)
  else subblock N k

def q0Nminus1_7 : List ℕ :=
  [0, 1, 2, 4, 8, 16, 32, 3, 5, 64, 9, 6, 17, 10, 18, 12, 33, 65, 20, 34, 24, 36, 7, 66, 11, 40,
    68, 19, 13, 48, 14, 72, 21, 35, 26, 80, 37, 25, 22, 38, 96, 67, 41, 28, 69, 42, 49, 74, 70,
    44, 81, 50, 73, 15, 52, 23, 76, 82, 56, 27, 97, 39, 84, 29, 43, 98, 88, 30, 71, 45, 100, 51,
    46, 75, 104, 53, 77, 54, 83, 57, 112, 78, 85, 58, 99, 86, 60, 89, 101, 31, 90, 102, 105, 92,
    47, 106, 55, 113, 79, 108, 59, 114, 87, 116, 61, 91, 120, 62, 103, 93, 107, 94, 109, 115, 110,
    117, 118, 121, 122, 63, 124, 95, 111, 119, 123, 125, 126, 127]

def q0Nminus1_8 : List ℕ :=
  [0, 1, 2, 4, 8, 16, 32, 3, 5, 64, 9, 6, 17, 10, 18, 128, 12, 33, 65, 20, 34, 24, 36, 7, 129,
    66, 11, 40, 68, 130, 19, 13, 48, 14, 72, 21, 132, 35, 26, 80, 37, 25, 22, 136, 38, 96, 67, 41,
    144, 28, 69, 42, 49, 74, 160, 192, 70, 44, 131, 81, 50, 73, 15, 133, 52, 23, 134, 76, 137, 82,
    56, 27, 97, 39, 84, 138, 145, 29, 43, 98, 88, 140, 30, 146, 71, 161, 45, 100, 51, 148, 46, 75,
    104, 162, 53, 193, 152, 77, 164, 54, 83, 57, 112, 135, 78, 194, 85, 58, 168, 139, 99, 86, 60,
    89, 196, 141, 101, 147, 176, 142, 31, 200, 90, 149, 102, 105, 163, 92, 47, 208, 150, 153, 165,
    106, 55, 113, 154, 79, 108, 224, 166, 195, 59, 169, 114, 156, 87, 197, 116, 170, 61, 177, 91,
    198, 172, 120, 201, 62, 143, 103, 178, 93, 202, 107, 180, 151, 209, 94, 204, 155, 210, 109,
    184, 115, 167, 225, 157, 110, 117, 212, 171, 226, 216, 158, 118, 173, 121, 199, 179, 228, 174,
    122, 203, 63, 181, 232, 124, 205, 182, 211, 185, 240, 206, 95, 213, 186, 227, 111, 214, 188,
    217, 229, 159, 119, 218, 230, 233, 175, 123, 220, 183, 234, 125, 241, 207, 187, 236, 126, 242,
    244, 189, 215, 219, 231, 248, 190, 221, 235, 222, 237, 243, 238, 245, 127, 191, 246, 249, 250,
    252, 223, 239, 251, 247, 253, 254, 255]

def q0Nminus1_9 : List ℕ :=
  [0, 1, 2, 4, 8, 16, 32, 3, 5, 64, 9, 6, 17, 10, 18, 128, 12, 33, 65, 20, 256, 34, 24, 36, 7,
    129, 66, 11, 40, 68, 130, 19, 13, 48, 14, 72, 257, 21, 132, 35, 258, 26, 80, 37, 25, 22, 136,
    260, 264, 38, 96, 67, 41, 144, 28, 69, 42, 49, 74, 272, 160, 288, 192, 70, 44, 131, 81, 50,
    73, 15, 320, 133, 52, 23, 134, 384, 76, 137, 82, 56, 27, 97, 39, 259, 84, 138, 145, 261, 29,
    43, 98, 88, 140, 30, 146, 71, 262, 265, 161, 45, 100, 51, 148, 46, 75, 266, 273, 104, 162, 53,
    193, 152, 77, 164, 268, 274, 54, 83, 57, 112, 135, 78, 289, 194, 85, 276, 58, 168, 139, 99,
    86, 60, 280, 89, 290, 196, 141, 101, 147, 176, 142, 321, 31, 200, 90, 292, 322, 263, 149, 102,
    105, 304, 296, 163, 92, 47, 267, 385, 324, 208, 386, 150, 153, 165, 106, 55, 328, 113, 154,
    79, 269, 108, 224, 166, 195, 270, 275, 291, 59, 169, 114, 277, 156, 87, 197, 116, 170, 61,
    281, 278, 177, 293, 388, 91, 198, 172, 120, 201, 336, 62, 282, 143, 103, 178, 294, 93, 202,
    323, 392, 297, 107, 180, 151, 209, 284, 94, 204, 298, 400, 352, 325, 155, 210, 305, 300, 109,
    184, 115, 167, 225, 326, 306, 157, 329, 110, 117, 212, 171, 330, 226, 387, 308, 216, 416, 271,
    279, 158, 337, 118, 332, 389, 173, 121, 199, 179, 228, 338, 312, 390, 174, 393, 283, 122, 448,
    353, 203, 63, 340, 394, 181, 295, 285, 232, 124, 205, 182, 286, 299, 354, 211, 401, 185, 396,
    344, 240, 206, 95, 327, 402, 356, 307, 301, 417, 213, 186, 404, 227, 418, 302, 360, 111, 331,
    214, 309, 188, 449, 217, 408, 229, 159, 420, 310, 333, 119, 339, 218, 368, 230, 391, 313, 450,
    334, 233, 175, 123, 341, 220, 314, 424, 395, 355, 287, 183, 234, 125, 342, 316, 241, 345, 452,
    397, 403, 207, 432, 357, 187, 236, 126, 242, 398, 346, 456, 358, 405, 303, 244, 189, 361, 215,
    348, 419, 406, 464, 362, 409, 219, 311, 421, 410, 231, 248, 369, 190, 364, 335, 480, 315, 221,
    370, 422, 425, 451, 235, 412, 343, 372, 317, 222, 426, 453, 237, 433, 347, 243, 454, 318, 376,
    428, 238, 359, 457, 399, 434, 349, 245, 458, 363, 127, 191, 407, 436, 465, 246, 350, 460, 249,
    411, 365, 440, 374, 423, 466, 250, 371, 481, 413, 366, 468, 429, 252, 373, 482, 427, 414, 223,
    472, 455, 377, 435, 319, 484, 430, 488, 239, 378, 459, 437, 380, 461, 496, 351, 467, 438, 251,
    462, 442, 441, 469, 247, 367, 253, 375, 444, 470, 483, 415, 485, 473, 474, 254, 379, 431, 489,
    486, 476, 439, 490, 463, 381, 497, 492, 443, 382, 498, 445, 471, 500, 446, 475, 487, 504, 255,
    477, 491, 478, 383, 493, 499, 502, 494, 501, 447, 505, 506, 479, 508, 495, 503, 507, 509, 510,
    511]

/-- `nr_polar_sequence_pattern`, for the lengths that `build_polar_tables` takes. -/
def nrPolarSequencePattern : ℕ → List ℕ
  | 7 => q0Nminus1_7
  | 8 => q0Nminus1_8
  | 9 => q0Nminus1_9
  | _ => []

/-- The bits that are frozen because they are punctured or shortened (`Q_Ftmp_N`). -/
def frozenTmp (K N E : ℕ) : List ℕ :=
  if E < N then
    if 16 * K ≤ 7 * E then
      (List.range (N - E)).map (subblock N) ++
        List.range (if 3 * N ≤ 4 * E then (3 * N - 2 * E + 3) / 4 else (9 * N - 4 * E + 15) / 16)
    else (List.range' E (N - E)).map (subblock N)
  else []

/-- The bits that may carry information, by reliability (`Q_Itmp_N`). -/
def unfrozen (K N E : ℕ) : List ℕ :=
  (nrPolarSequencePattern (Nat.log 2 N)).filter fun q => q ∉ frozenTmp K N E

/-- `Q_I_N` of `nr_polar_info_bit_pattern`: the `K` most reliable ones. -/
def infoBits (K N E : ℕ) : List ℕ := (unfrozen K N E).drop ((unfrozen K N E).length - K)

/-! ## The generator matrix of the CRC -/

def crcPolynomialPattern : List UInt8 :=
  [1, 1, 0, 1, 1, 0, 0, 1, 0, 1, 0, 1, 1, 0, 0, 0, 1, 0, 0, 0, 1, 0, 1, 1, 1]

/-- The rows of the generator matrix, from the last one up. -/
def crcGeneratorRow : ℕ → List UInt8
  | 0 => crcPolynomialPattern.tail
  | m + 1 =>
      let below := crcGeneratorRow m
      (List.range 24).map fun j =>
        let temp1 := below.tail.getD j 0
        let temp2 := below.headD 0 * crcPolynomialPattern.getD (j + 1) 0
        if temp1 + temp2 = 1 then 1 else 0

/-- `crc24c_generator_matrix`. -/
def crc24cGeneratorMatrix (payloadSizeBits i j : ℕ) : UInt8 :=
  (crcGeneratorRow (payloadSizeBits - 1 - i)).getD j 0

/-! ## Tables of the fast encoder -/

/-- The scan of the rate matching pattern for groups of consecutive positions. -/
structure GroupScan where
  iplast : ℕ
  ccnt : ℕ
  mingroupsize : ℕ
deriving DecidableEq, Repr

def GroupScan.next (rmp : ℕ → ℕ) (s : GroupScan) (outpos : ℕ) : GroupScan :=
  if rmp outpos = s.iplast + 1 then { s with iplast := rmp outpos, ccnt := s.ccnt + 1 }
  else
    { iplast := rmp outpos
      ccnt := 0
      mingroupsize := min (s.ccnt + 1) s.mingroupsize }

/-- The smallest group of the rate matching pattern. -/
def minGroupSize (rmp : ℕ → ℕ) (E : ℕ) : ℕ :=
  let s := (List.range' 1 (E - 1)).foldl (GroupScan.next rmp)
    { iplast := rmp 0, ccnt := 0, mingroupsize := 1024 }
  min (s.ccnt + 1) s.mingroupsize

/-- `newPolarInitNode`, as far as the encoders read it. -/
structure PolarParams where
  payloadBits : ℕ
  encoderLength : ℕ
  crcParityBits : ℕ
  K : ℕ
  N : ℕ
  interleavingPattern : ℕ → ℕ
  deinterleavingPattern : ℕ → ℕ
  rateMatchingPattern : ℕ → ℕ
  qIN : List ℕ
  crcGeneratorMatrix : ℕ → ℕ → UInt8
  gN : ℕ → ℕ → UInt8
  gNTab : ℕ → ℕ → BitVec 64
  groupsize : ℕ
  rmTab : ℕ → ℕ
  cprimeTab0 : ℕ → ℕ → BitVec 64
  cprimeTab1 : ℕ → ℕ → BitVec 64

/-- The bit `bit_i` of `val` at position `ip` of the 128-bit word whose 64-bit halves are
`half = 0` and `half = 1`. -/
def cprimeBit (val i ip half : ℕ) : BitVec 64 :=
  if ip / 64 = half then BitVec.ofNat 64 ((val >>> i) % 2) <<< (ip % 64) else 0#64

/-- `cprime_tab0` and `cprime_tab1` (`half = 0` and `half = 1`): where the bits of a byte of the
message go to. The entries of bytes behind the message are not written. -/
def cprimeTab (K : ℕ) (deinterleavingPattern : ℕ → ℕ) (half byte val : ℕ) : BitVec 64 :=
  let numbits := if byte < K / 8 then 8 else if byte = K / 8 then K % 8 else 0
  (List.range numbits).foldl (fun tab i =>
    tab ||| cprimeBit val i (deinterleavingPattern (K - 1 - (8 * byte + i))) half) 0#64

/-- One row of `G_N` in 64-bit words. -/
def packRow (N : ℕ) (row : ℕ → UInt8) (w : ℕ) : BitVec 64 :=
  (List.range N).foldl (fun tab j =>
    if j / 64 = w then tab ||| (BitVec.ofNat 64 (row j).toNat <<< (j % 64)) else tab) 0#64

/-- `G_N_tab`: the rows of `G_N` for the information bits. -/
def gNTab (N : ℕ) (informationBitPattern : ℕ → Bool) (gN : ℕ → ℕ → UInt8) (k : ℕ) :
    ℕ → BitVec 64 :=
  packRow N (gN (((List.range N).filter informationBitPattern).getD k 0))

/-- The assertions of `build_polar_tables`. -/
def tablesSupported (K N mingroupsize : ℕ) (deinterleavingPattern : ℕ → ℕ) : Bool :=
  decide (17 < K) && decide (K < 129) &&
    (List.range K).all (fun i => decide (deinterleavingPattern i < 128)) &&
    (N == 512 || N == 256 || N == 128) &&
    (mingroupsize == 4 || mingroupsize == 8 || mingroupsize == 16)

/-! ## `nr_polar_params` -/

inductive MessageType where
  | pbch
  | dci
deriving DecidableEq, Repr

/-- `NR_POLAR_PBCH_PAYLOAD_BITS`, or the length of the DCI. -/
def payloadBits : MessageType → ℕ → ℕ
  | .pbch, _ => 32
  | .dci, messageLength => messageLength

/-- `NR_POLAR_PBCH_E`, or that of the CCEs of the aggregation level. -/
def encoderLength : MessageType → ℕ → ℕ
  | .pbch, _ => 864
  | .dci, aggregationLevel => aggregationLevel * 108

/-- The rows of the generator matrix of the CRC: for a DCI there are 24 more, for the ones that
come first. -/
def crcRows : MessageType → ℕ → ℕ
  | .pbch, payloadBits => payloadBits
  | .dci, payloadBits => payloadBits + 24

/-- `deinterleaving_pattern`. -/
def invertPattern (pattern : List ℕ) : ℕ → ℕ :=
  (List.range pattern.length).foldl (fun d i => Function.update d (pattern.getD i 0) i) fun _ => 0

/-- The parameters for `A` bits of payload and `E` bits on the channel, with `build_polar_tables`. -/
def newPolarParams (kroneckerPowerMatrices : ℕ → ℕ → ℕ → UInt8) (A E crcRows : ℕ) : PolarParams :=
  let K := A + 24
  let N := nrPolarOutputLength K E 9
  let pattern := nrPolarInterleavingPattern K 1
  let rmp := nrPolarRateMatchingPattern K N E
  let gN := kroneckerPowerMatrices (Nat.log 2 N)
  let mingroupsize := minGroupSize rmp E
  let shift := if mingroupsize = 16 then 4 else if mingroupsize = 4 then 2 else 3
  { payloadBits := A
    encoderLength := E
    crcParityBits := 24
    K, N
    interleavingPattern := fun i => pattern.getD i 0
    deinterleavingPattern := invertPattern pattern
    rateMatchingPattern := rmp
    qIN := (infoBits K N E).mergeSort
    crcGeneratorMatrix := crc24cGeneratorMatrix crcRows
    gN
    gNTab := gNTab N (fun n => decide (n ∈ infoBits K N E)) gN
    groupsize := mingroupsize
    rmTab := fun tcnt => rmp (tcnt * mingroupsize) >>> shift
    cprimeTab0 := cprimeTab K (invertPattern pattern) 0
    cprimeTab1 := cprimeTab K (invertPattern pattern) 1 }

/-- `nr_polar_params` for a code that is used for the first time; a later call finds the same
parameters in the list. `none` stands for a failed assertion. -/
def nrPolarParams (kroneckerPowerMatrices : ℕ → ℕ → ℕ → UInt8) (messageType : MessageType)
    (messageLength aggregationLevel : ℕ) : Option PolarParams :=
  let A := payloadBits messageType messageLength
  let p := newPolarParams kroneckerPowerMatrices A (encoderLength messageType aggregationLevel)
    (crcRows messageType A)
  if tablesSupported p.K p.N p.groupsize p.deinterleavingPattern then some p else none

end OaiCu.NrPolar
