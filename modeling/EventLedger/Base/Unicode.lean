import EventLedger.Base.Text
import Mathlib.Data.List.DropRight

namespace Text

-- The code points with the property White_Space.
def spaceRanges : List (ℕ × ℕ) :=
  [(9, 13), (32, 32), (133, 133), (160, 160), (5760, 5760), (8192, 8202), (8232, 8233),
   (8239, 8239), (8287, 8287), (12288, 12288)]

def isSpaceCode (n : ℕ) : Bool :=
  spaceRanges.any fun r => r.1.ble n && n.ble r.2

def isSpace (c : Char) : Bool :=
  isSpaceCode c.toNat

-- The text without the characters at its two ends that the predicate holds of.
def trim (p : Char → Bool) (t : Text) : Text :=
  (t.dropWhile p).rdropWhile p

-- The text without the white space at its two ends.
def strip (t : Text) : Text :=
  (t.dropWhile isSpace).rdropWhile isSpace

-- Every `stride`-th code point from `first` to `last`, the other case of `first` being `target`
-- and the others following at the same distance.
structure CaseRange where
  first : ℕ
  last : ℕ
  stride : ℕ
  target : ℕ

def CaseRange.contains (r : CaseRange) (n : ℕ) : Bool :=
  r.first.ble n && n.ble r.last && ((n - r.first) % r.stride).beq 0

-- The code points whose upper case is another single code point.
def upperRanges : List CaseRange :=
  [⟨97, 122, 1, 65⟩, ⟨181, 181, 1, 924⟩, ⟨224, 246, 1, 192⟩, ⟨248, 254, 1, 216⟩,
   ⟨255, 255, 1, 376⟩, ⟨257, 303, 2, 256⟩, ⟨305, 305, 1, 73⟩, ⟨307, 311, 2, 306⟩,
   ⟨314, 328, 2, 313⟩, ⟨331, 375, 2, 330⟩, ⟨378, 382, 2, 377⟩, ⟨383, 383, 1, 83⟩,
   ⟨384, 384, 1, 579⟩, ⟨387, 389, 2, 386⟩, ⟨392, 392, 1, 391⟩, ⟨396, 396, 1, 395⟩,
   ⟨402, 402, 1, 401⟩, ⟨405, 405, 1, 502⟩, ⟨409, 409, 1, 408⟩, ⟨410, 410, 1, 573⟩,
   ⟨414, 414, 1, 544⟩, ⟨417, 421, 2, 416⟩, ⟨424, 424, 1, 423⟩, ⟨429, 429, 1, 428⟩,
   ⟨432, 432, 1, 431⟩, ⟨436, 438, 2, 435⟩, ⟨441, 441, 1, 440⟩, ⟨445, 445, 1, 444⟩,
   ⟨447, 447, 1, 503⟩, ⟨453, 453, 1, 452⟩, ⟨454, 454, 1, 452⟩, ⟨456, 456, 1, 455⟩,
   ⟨457, 457, 1, 455⟩, ⟨459, 459, 1, 458⟩, ⟨460, 460, 1, 458⟩, ⟨462, 476, 2, 461⟩,
   ⟨477, 477, 1, 398⟩, ⟨479, 495, 2, 478⟩, ⟨498, 498, 1, 497⟩, ⟨499, 499, 1, 497⟩,
   ⟨501, 501, 1, 500⟩, ⟨505, 543, 2, 504⟩, ⟨547, 563, 2, 546⟩, ⟨572, 572, 1, 571⟩,
   ⟨575, 576, 1, 11390⟩, ⟨578, 578, 1, 577⟩, ⟨583, 591, 2, 582⟩, ⟨592, 592, 1, 11375⟩,
   ⟨593, 593, 1, 11373⟩, ⟨594, 594, 1, 11376⟩, ⟨595, 595, 1, 385⟩, ⟨596, 596, 1, 390⟩,
   ⟨598, 599, 1, 393⟩, ⟨601, 601, 1, 399⟩, ⟨603, 603, 1, 400⟩, ⟨604, 604, 1, 42923⟩,
   ⟨608, 608, 1, 403⟩, ⟨609, 609, 1, 42924⟩, ⟨611, 611, 1, 404⟩, ⟨613, 613, 1, 42893⟩,
   ⟨614, 614, 1, 42922⟩, ⟨616, 616, 1, 407⟩, ⟨617, 617, 1, 406⟩, ⟨618, 618, 1, 42926⟩,
   ⟨619, 619, 1, 11362⟩, ⟨620, 620, 1, 42925⟩, ⟨623, 623, 1, 412⟩, ⟨625, 625, 1, 11374⟩,
   ⟨626, 626, 1, 413⟩, ⟨629, 629, 1, 415⟩, ⟨637, 637, 1, 11364⟩, ⟨640, 640, 1, 422⟩,
   ⟨642, 642, 1, 42949⟩, ⟨643, 643, 1, 425⟩, ⟨647, 647, 1, 42929⟩, ⟨648, 648, 1, 430⟩,
   ⟨649, 649, 1, 580⟩, ⟨650, 651, 1, 433⟩, ⟨652, 652, 1, 581⟩, ⟨658, 658, 1, 439⟩,
   ⟨669, 669, 1, 42930⟩, ⟨670, 670, 1, 42928⟩, ⟨837, 837, 1, 921⟩, ⟨881, 883, 2, 880⟩,
   ⟨887, 887, 1, 886⟩, ⟨891, 893, 1, 1021⟩, ⟨940, 940, 1, 902⟩, ⟨941, 943, 1, 904⟩,
   ⟨945, 961, 1, 913⟩, ⟨962, 962, 1, 931⟩, ⟨963, 971, 1, 931⟩, ⟨972, 972, 1, 908⟩,
   ⟨973, 974, 1, 910⟩, ⟨976, 976, 1, 914⟩, ⟨977, 977, 1, 920⟩, ⟨981, 981, 1, 934⟩,
   ⟨982, 982, 1, 928⟩, ⟨983, 983, 1, 975⟩, ⟨985, 1007, 2, 984⟩, ⟨1008, 1008, 1, 922⟩,
   ⟨1009, 1009, 1, 929⟩, ⟨1010, 1010, 1, 1017⟩, ⟨1011, 1011, 1, 895⟩, ⟨1013, 1013, 1, 917⟩,
   ⟨1016, 1016, 1, 1015⟩, ⟨1019, 1019, 1, 1018⟩, ⟨1072, 1103, 1, 1040⟩, ⟨1104, 1119, 1, 1024⟩,
   ⟨1121, 1153, 2, 1120⟩, ⟨1163, 1215, 2, 1162⟩, ⟨1218, 1230, 2, 1217⟩, ⟨1231, 1231, 1, 1216⟩,
   ⟨1233, 1327, 2, 1232⟩, ⟨1377, 1414, 1, 1329⟩, ⟨4304, 4346, 1, 7312⟩, ⟨4349, 4351, 1, 7357⟩,
   ⟨5112, 5117, 1, 5104⟩, ⟨7296, 7296, 1, 1042⟩, ⟨7297, 7297, 1, 1044⟩, ⟨7298, 7298, 1, 1054⟩,
   ⟨7299, 7300, 1, 1057⟩, ⟨7301, 7301, 1, 1058⟩, ⟨7302, 7302, 1, 1066⟩, ⟨7303, 7303, 1, 1122⟩,
   ⟨7304, 7304, 1, 42570⟩, ⟨7545, 7545, 1, 42877⟩, ⟨7549, 7549, 1, 11363⟩, ⟨7566, 7566, 1, 42950⟩,
   ⟨7681, 7829, 2, 7680⟩, ⟨7835, 7835, 1, 7776⟩, ⟨7841, 7935, 2, 7840⟩, ⟨7936, 7943, 1, 7944⟩,
   ⟨7952, 7957, 1, 7960⟩, ⟨7968, 7975, 1, 7976⟩, ⟨7984, 7991, 1, 7992⟩, ⟨8000, 8005, 1, 8008⟩,
   ⟨8017, 8023, 2, 8025⟩, ⟨8032, 8039, 1, 8040⟩, ⟨8048, 8049, 1, 8122⟩, ⟨8050, 8053, 1, 8136⟩,
   ⟨8054, 8055, 1, 8154⟩, ⟨8056, 8057, 1, 8184⟩, ⟨8058, 8059, 1, 8170⟩, ⟨8060, 8061, 1, 8186⟩,
   ⟨8112, 8113, 1, 8120⟩, ⟨8126, 8126, 1, 921⟩, ⟨8144, 8145, 1, 8152⟩, ⟨8160, 8161, 1, 8168⟩,
   ⟨8165, 8165, 1, 8172⟩, ⟨8526, 8526, 1, 8498⟩, ⟨8560, 8575, 1, 8544⟩, ⟨8580, 8580, 1, 8579⟩,
   ⟨9424, 9449, 1, 9398⟩, ⟨11312, 11359, 1, 11264⟩, ⟨11361, 11361, 1, 11360⟩,
   ⟨11365, 11365, 1, 570⟩, ⟨11366, 11366, 1, 574⟩, ⟨11368, 11372, 2, 11367⟩,
   ⟨11379, 11379, 1, 11378⟩, ⟨11382, 11382, 1, 11381⟩, ⟨11393, 11491, 2, 11392⟩,
   ⟨11500, 11502, 2, 11499⟩, ⟨11507, 11507, 1, 11506⟩, ⟨11520, 11557, 1, 4256⟩,
   ⟨11559, 11559, 1, 4295⟩, ⟨11565, 11565, 1, 4301⟩, ⟨42561, 42605, 2, 42560⟩,
   ⟨42625, 42651, 2, 42624⟩, ⟨42787, 42799, 2, 42786⟩, ⟨42803, 42863, 2, 42802⟩,
   ⟨42874, 42876, 2, 42873⟩, ⟨42879, 42887, 2, 42878⟩, ⟨42892, 42892, 1, 42891⟩,
   ⟨42897, 42899, 2, 42896⟩, ⟨42900, 42900, 1, 42948⟩, ⟨42903, 42921, 2, 42902⟩,
   ⟨42933, 42947, 2, 42932⟩, ⟨42952, 42954, 2, 42951⟩, ⟨42961, 42961, 1, 42960⟩,
   ⟨42967, 42969, 2, 42966⟩, ⟨42998, 42998, 1, 42997⟩, ⟨43859, 43859, 1, 42931⟩,
   ⟨43888, 43967, 1, 5024⟩, ⟨65345, 65370, 1, 65313⟩, ⟨66600, 66639, 1, 66560⟩,
   ⟨66776, 66811, 1, 66736⟩, ⟨66967, 66977, 1, 66928⟩, ⟨66979, 66993, 1, 66940⟩,
   ⟨66995, 67001, 1, 66956⟩, ⟨67003, 67004, 1, 66964⟩, ⟨68800, 68850, 1, 68736⟩,
   ⟨71872, 71903, 1, 71840⟩, ⟨93792, 93823, 1, 93760⟩, ⟨125218, 125251, 1, 125184⟩]

-- The code points whose full upper case is a sequence.
def upperSequences : List (ℕ × List ℕ) :=
  [(223, [83, 83]), (329, [700, 78]), (496, [74, 780]), (912, [921, 776, 769]),
   (944, [933, 776, 769]), (1415, [1333, 1362]), (7830, [72, 817]), (7831, [84, 776]),
   (7832, [87, 778]), (7833, [89, 778]), (7834, [65, 702]), (8016, [933, 787]),
   (8018, [933, 787, 768]), (8020, [933, 787, 769]), (8022, [933, 787, 834]), (8064, [7944, 921]),
   (8065, [7945, 921]), (8066, [7946, 921]), (8067, [7947, 921]), (8068, [7948, 921]),
   (8069, [7949, 921]), (8070, [7950, 921]), (8071, [7951, 921]), (8072, [7944, 921]),
   (8073, [7945, 921]), (8074, [7946, 921]), (8075, [7947, 921]), (8076, [7948, 921]),
   (8077, [7949, 921]), (8078, [7950, 921]), (8079, [7951, 921]), (8080, [7976, 921]),
   (8081, [7977, 921]), (8082, [7978, 921]), (8083, [7979, 921]), (8084, [7980, 921]),
   (8085, [7981, 921]), (8086, [7982, 921]), (8087, [7983, 921]), (8088, [7976, 921]),
   (8089, [7977, 921]), (8090, [7978, 921]), (8091, [7979, 921]), (8092, [7980, 921]),
   (8093, [7981, 921]), (8094, [7982, 921]), (8095, [7983, 921]), (8096, [8040, 921]),
   (8097, [8041, 921]), (8098, [8042, 921]), (8099, [8043, 921]), (8100, [8044, 921]),
   (8101, [8045, 921]), (8102, [8046, 921]), (8103, [8047, 921]), (8104, [8040, 921]),
   (8105, [8041, 921]), (8106, [8042, 921]), (8107, [8043, 921]), (8108, [8044, 921]),
   (8109, [8045, 921]), (8110, [8046, 921]), (8111, [8047, 921]), (8114, [8122, 921]),
   (8115, [913, 921]), (8116, [902, 921]), (8118, [913, 834]), (8119, [913, 834, 921]),
   (8124, [913, 921]), (8130, [8138, 921]), (8131, [919, 921]), (8132, [905, 921]),
   (8134, [919, 834]), (8135, [919, 834, 921]), (8140, [919, 921]), (8146, [921, 776, 768]),
   (8147, [921, 776, 769]), (8150, [921, 834]), (8151, [921, 776, 834]), (8162, [933, 776, 768]),
   (8163, [933, 776, 769]), (8164, [929, 787]), (8166, [933, 834]), (8167, [933, 776, 834]),
   (8178, [8186, 921]), (8179, [937, 921]), (8180, [911, 921]), (8182, [937, 834]),
   (8183, [937, 834, 921]), (8188, [937, 921]), (64256, [70, 70]), (64257, [70, 73]),
   (64258, [70, 76]), (64259, [70, 70, 73]), (64260, [70, 70, 76]), (64261, [83, 84]),
   (64262, [83, 84]), (64275, [1348, 1350]), (64276, [1348, 1333]), (64277, [1348, 1339]),
   (64278, [1358, 1350]), (64279, [1348, 1341])]

def upperCode (n : ℕ) : List ℕ :=
  match upperSequences.find? (·.1.beq n) with
  | some p => p.2
  | none   =>
    match upperRanges.find? (·.contains n) with
    | some r => [r.target + (n - r.first)]
    | none   => [n]

def upperChar (c : Char) : Text :=
  (upperCode c.toNat).map Char.ofNat

def upper (t : Text) : Text :=
  t.flatMap upperChar

-- The code points `first, first + stride, …, last`.
structure Progression where
  first : ℕ
  last : ℕ
  stride : ℕ

namespace Progression

structure Mem (p : Progression) (n : ℕ) : Prop where
  first_le : p.first ≤ n
  le_last : n ≤ p.last
  stride : (n - p.first) % p.stride = 0

def single (n : ℕ) : Progression where
  first := n
  last := n
  stride := 1

theorem single_mem (n : ℕ) : (single n).Mem n where
  first_le := le_rfl
  le_last := le_rfl
  stride := Nat.mod_one _

-- Whether the bounds or the parities of two progressions show that they are disjoint.
def apart (p q : Progression) : Bool :=
  p.last.blt q.first || q.last.blt p.first ||
  (q.stride.beq 2 && (p.stride.beq 2 || p.first.beq p.last) && !(p.first % 2).beq (q.first % 2))

theorem not_mem_of_apart {p q : Progression} {n : ℕ} (h : p.apart q) (hp : p.Mem n) :
    ¬q.Mem n := by
  intro hq
  have ⟨_, _, hp⟩ := hp
  have ⟨_, _, hq⟩ := hq
  simp only [apart, Bool.or_eq_true, Bool.and_eq_true, Nat.blt_eq, Nat.beq_eq, Bool.not_eq_true',
    ← Bool.not_eq_true] at h
  obtain (h | h) | ⟨⟨hs, h | h⟩, _⟩ := h
  case inl.inl => omega
  case inl.inr => omega
  case inr.inl =>
    rw [h] at hp
    rw [hs] at hq
    omega
  case inr.inr =>
    rw [hs] at hq
    omega

def isScalar (p : Progression) : Bool :=
  p.last.ble 55295 || (Nat.ble 57344 p.first && p.last.ble 1114111)

theorem toNat_ofNat {p : Progression} {n : ℕ} (h : p.isScalar) (hp : p.Mem n) :
    (Char.ofNat n).toNat = n := by
  have ⟨_, _, _⟩ := hp
  simp only [isScalar, Bool.or_eq_true, Bool.and_eq_true, Nat.ble_eq] at h
  have hv : n.isValidChar := by
    simp only [Nat.isValidChar]
    omega
  have ho : Char.ofNat n = Char.ofNatAux n hv := dif_pos hv
  rw [ho]
  rfl

end Progression

def CaseRange.source (r : CaseRange) : Progression where
  first := r.first
  last := r.last
  stride := r.stride

def CaseRange.image (r : CaseRange) : Progression where
  first := r.target
  last := r.target + (r.last - r.first)
  stride := r.stride

theorem CaseRange.contains_iff {r : CaseRange} {n : ℕ} : r.contains n ↔ r.source.Mem n where
  mp h := by
    simp only [contains, Bool.and_eq_true, Nat.ble_eq, Nat.beq_eq] at h
    exact ⟨h.1.1, h.1.2, h.2⟩
  mpr h := by
    have ⟨h₁, h₂, h₃⟩ := h
    simp only [contains, Bool.and_eq_true, Nat.ble_eq, Nat.beq_eq]
    exact ⟨⟨h₁, h₂⟩, h₃⟩

theorem CaseRange.image_mem {r : CaseRange} {n : ℕ} (h : r.source.Mem n) :
    r.image.Mem (r.target + (n - r.first)) where
  first_le := Nat.le_add_right _ _
  le_last := Nat.add_le_add_left (Nat.sub_le_sub_right h.le_last _) _
  stride := by
    have := h.stride
    simpa [image, source] using this

-- The code points that white space or a change to upper case concerns, and those that a change to
-- upper case produces.
def casedCodes : List Progression :=
  upperRanges.map CaseRange.source ++ upperSequences.map (fun p => .single p.1)

def spaceCodes : List Progression :=
  spaceRanges.map fun r => ⟨r.1, r.2, 1⟩

def upperCodes : List Progression :=
  upperRanges.map CaseRange.image ++
  upperSequences.flatMap fun p => p.2.map .single

set_option maxRecDepth 100000 in
theorem upperCodes_apart :
    (upperCodes.all fun p =>
      casedCodes.all (p.apart ·) && spaceCodes.all (p.apart ·) && p.isScalar) = true := by
  decide +kernel

-- What the change to upper case leaves as it is and the removal of white space does not touch.
structure IsUpperCode (n : ℕ) : Prop where
  upper : upperCode n = [n]
  not_space : isSpaceCode n = false
  toNat_ofNat : (Char.ofNat n).toNat = n

theorem upperSequences_ne_nil : ∀ p ∈ upperSequences, p.2 ≠ [] := by
  have h : (upperSequences.all fun p => !p.2.isEmpty) = true := by decide +kernel
  simpa using h

theorem upperCode_eq_self {n : ℕ} (h : ∀ p ∈ casedCodes, ¬p.Mem n) : upperCode n = [n] := by
  have hs : upperSequences.find? (·.1.beq n) = none := by
    simp only [List.find?_eq_none, Nat.beq_eq]
    intro p hp he
    exact h _ (List.mem_append_right _ (List.mem_map_of_mem hp)) (he ▸ Progression.single_mem _)
  have hr : upperRanges.find? (·.contains n) = none := by
    simp only [List.find?_eq_none]
    intro r hr hc
    exact h _ (List.mem_append_left _ (List.mem_map_of_mem hr)) (CaseRange.contains_iff.mp hc)
  simp [upperCode, hs, hr]

theorem isSpaceCode_eq_false {n : ℕ} (h : ∀ p ∈ spaceCodes, ¬p.Mem n) : isSpaceCode n = false := by
  simp only [isSpaceCode, List.any_eq_false, Bool.and_eq_true, Nat.ble_eq]
  intro r hr hn
  exact h _ (List.mem_map_of_mem hr) ⟨hn.1, hn.2, Nat.mod_one _⟩

theorem isUpperCode_of_mem {n : ℕ} {p : Progression} (hp : p ∈ upperCodes) (h : p.Mem n) :
    IsUpperCode n := by
  have ha := List.all_eq_true.mp upperCodes_apart p hp
  simp only [Bool.and_eq_true, List.all_eq_true] at ha
  have ⟨⟨hc, hs⟩, hv⟩ := ha
  exact {
    upper := upperCode_eq_self fun q hq => Progression.not_mem_of_apart (hc q hq) h
    not_space := isSpaceCode_eq_false fun q hq => Progression.not_mem_of_apart (hs q hq) h
    toNat_ofNat := Progression.toNat_ofNat hv h
  }

-- A code point is its own upper case, or its upper case consists of upper case codes.
theorem upperCode_cases (n : ℕ) :
    upperCode n = [n] ∨ (upperCode n ≠ [] ∧ ∀ m ∈ upperCode n, IsUpperCode m) := by
  unfold upperCode
  cases hs : upperSequences.find? (·.1.beq n)
  case some p =>
    have hp := List.mem_of_find?_eq_some hs
    exact .inr ⟨upperSequences_ne_nil p hp, fun m hm => isUpperCode_of_mem
      (List.mem_append_right _ (List.mem_flatMap_of_mem hp (List.mem_map_of_mem hm)))
      (Progression.single_mem m)⟩
  case none =>
    cases hr : upperRanges.find? (·.contains n)
    case none => exact .inl rfl
    case some r =>
      refine .inr ⟨by simp, fun m hm => ?_⟩
      have hc := List.find?_some hr
      have hn := CaseRange.contains_iff.mp hc
      rw [List.mem_singleton.mp hm]
      exact isUpperCode_of_mem
        (List.mem_append_left _ (List.mem_map_of_mem (List.mem_of_find?_eq_some hr)))
        (CaseRange.image_mem hn)

theorem upperChar_cases (c : Char) :
    upperChar c = [c] ∨
    (upperChar c ≠ [] ∧ ∀ d ∈ upperChar c, upperChar d = [d] ∧ isSpace d = false) := by
  have h := upperCode_cases c.toNat
  cases h
  case inl h => exact .inl <| by simp [upperChar, h]
  case inr h =>
    refine .inr ⟨by simpa [upperChar] using h.1, fun d hd => ?_⟩
    have ⟨m, hm, he⟩ := List.mem_map.mp hd
    have ⟨hu, hs, hv⟩ := h.2 m hm
    rw [← he]
    exact ⟨by simp [upperChar, hv, hu], by rw [isSpace, hv, hs]⟩

theorem upperChar_ne_nil (c : Char) : upperChar c ≠ [] := by
  cases upperChar_cases c
  case inl h => simp [h]
  case inr h => exact h.1

theorem upper_upperChar (c : Char) : upper (upperChar c) = upperChar c := by
  have h : ∀ d ∈ upperChar c, upperChar d = [d] := by
    intro d hd
    cases upperChar_cases c
    case inl h =>
      have hd := List.mem_singleton.mp (h ▸ hd)
      exact hd ▸ h
    case inr h => exact (h.2 d hd).1
  rw [upper, List.flatMap_congr h, List.flatMap_singleton']

theorem upper_append (s t : Text) : upper (s ++ t) = upper s ++ upper t := by
  simp [upper]

theorem upper_upper (t : Text) : upper (upper t) = upper t := by
  induction t
  case nil => rfl
  case cons c t hi =>
    have hc : upper (c :: t) = upperChar c ++ upper t := rfl
    rw [hc, upper_append, upper_upperChar, hi]

theorem isSpace_of_mem_upperChar {c d : Char} (h : isSpace c = false) (hd : d ∈ upperChar c) :
    isSpace d = false := by
  cases upperChar_cases c
  case inl hc => exact List.mem_singleton.mp (hc ▸ hd) ▸ h
  case inr hc => exact (hc.2 d hd).2

-- A text with no character at its two ends that the predicate holds of.
structure Trimmed (p : Char → Bool) (t : Text) : Prop where
  head : ∀ c, t.head? = some c → p c = false
  last : ∀ c, t.getLast? = some c → p c = false

variable {p : Char → Bool}

theorem trim_eq_self {t : Text} (h : Trimmed p t) : trim p t = t := by
  have hd : t.dropWhile p = t := by
    cases t
    case nil => rfl
    case cons c t => simp [h.head c rfl]
  rw [trim, hd, List.rdropWhile_eq_self_iff]
  intro hn
  simp [h.last _ (List.getLast?_eq_getLast_of_ne_nil hn)]

theorem trim_trimmed (p : Char → Bool) (t : Text) : Trimmed p (trim p t) where
  head c h := by
    have hd : (t.dropWhile p).head? = some c := by
      have ⟨r, hr⟩ := List.rdropWhile_prefix p (t.dropWhile p)
      rw [← hr, List.head?_append]
      exact Option.or_eq_some_iff.mpr (.inl h)
    have := List.head?_dropWhile_not p t
    simpa [hd] using this
  last c h := by
    have hn : trim p t ≠ [] := by
      intro hn
      simp [hn] at h
    have hl := List.rdropWhile_last_not p _ hn
    rw [List.getLast?_eq_getLast_of_ne_nil hn, Option.some_inj] at h
    simpa [← h, trim] using hl

-- A text without white space at its two ends.
structure Stripped (t : Text) : Prop where
  head : ∀ c, t.head? = some c → isSpace c = false
  last : ∀ c, t.getLast? = some c → isSpace c = false

theorem strip_eq_self {t : Text} (h : Stripped t) : strip t = t :=
  trim_eq_self ⟨h.head, h.last⟩

theorem strip_stripped (t : Text) : Stripped (strip t) where
  head := (trim_trimmed isSpace t).head
  last := (trim_trimmed isSpace t).last

theorem Stripped.of_strip {t : Text} (h : strip t = t) : Stripped t :=
  h ▸ strip_stripped t

theorem Stripped.upper {t : Text} (h : Stripped t) : Stripped (upper t) where
  head d hd := by
    cases t
    case nil => simp [Text.upper] at hd
    case cons c t =>
      have hc : Text.upper (c :: t) = upperChar c ++ Text.upper t := rfl
      rw [hc, List.head?_append_of_ne_nil _ (upperChar_ne_nil c)] at hd
      exact isSpace_of_mem_upperChar (h.head c rfl) (List.mem_of_head? hd)
  last d hd := by
    obtain rfl | ⟨t, c, rfl⟩ := List.eq_nil_or_concat' t
    case inl => simp [Text.upper] at hd
    case inr =>
      have hc : Text.upper (t ++ [c]) = Text.upper t ++ upperChar c := by simp [Text.upper]
      rw [hc, List.getLast?_append_of_ne_nil _ (upperChar_ne_nil c)] at hd
      exact isSpace_of_mem_upperChar (h.last c (by simp)) (List.mem_of_getLast? hd)

end Text
