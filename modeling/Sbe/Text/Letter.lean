import Sbe.Text.Range

/-!
**Letter case, as the Unicode standard tabulates it.**

* `upperCase`, `lowerCase`: the properties Uppercase and Lowercase.
* `titleCase`, `caseIgnorable`: what else decides whether a sigma ends a word.
* `pairs`: the letters that are each other's upper and lower case.
* `toUpperAlone`, `toLowerAlone`: the characters whose mapping is not undone by the other one.
-/

namespace Sbe.Text.Letter

/-- The property Uppercase: the letters that stand in stretches, and those that alternate with
other characters. -/
def upperCase : CaseTable := ⟨[
  65, 26, 101, 23, 1, 7, 153, 2, 7, 2, 1, 1, 1, 2, 1, 3, 2, 4, 1, 2, 1, 3, 3, 2, 1, 2, 5, 2, 1, 1,
  2, 1, 1, 2, 1, 3, 1, 1, 1, 2, 3, 1, 7, 1, 2, 1, 2, 1, 38, 1, 2, 1, 1, 3, 65, 2, 1, 2, 2, 1, 1, 4,
  303, 1, 8, 1, 6, 1, 1, 3, 1, 1, 1, 2, 1, 17, 1, 9, 35, 1, 2, 3, 31, 1, 2, 1, 1, 2, 2, 51, 144, 2,
  111, 38, 2889, 38, 1, 1, 5, 1, 722, 86, 2195, 1, 6, 43, 2, 3, 584, 8, 8, 6, 10, 8, 8, 8, 8, 6, 26,
  8, 72, 4, 12, 4, 12, 4, 12, 5, 11, 4, 262, 1, 4, 1, 3, 3, 2, 3, 2, 1, 3, 5, 12, 4, 2, 4, 10, 2, 5,
  1, 26, 16, 19, 1, 818, 26, 1840, 48, 48, 1, 1, 3, 8, 4, 1, 1, 2, 1, 8, 3, 113, 1, 31370, 2, 43, 5,
  1, 5, 15, 4, 1, 1, 1, 2, 40, 1, 22315, 26, 1221, 40, 136, 36, 156, 11, 1, 15, 1, 7, 1, 2, 1770,
  51, 157, 22, 2874, 32, 21888, 32, 64, 25, 25927, 26, 26, 26, 26, 26, 26, 1, 1, 2, 2, 1, 2, 2, 2,
  4, 1, 8, 26, 26, 26, 2, 1, 4, 2, 8, 1, 7, 27, 2, 1, 4, 1, 5, 1, 1, 3, 7, 27, 26, 26, 26, 26, 26,
  26, 26, 26, 26, 26, 26, 30, 25, 33, 25, 33, 25, 33, 25, 33, 25, 33, 1, 4405, 34, 2062, 26, 6, 26,
  6, 26], [
  256, 55, 2, 15, 2, 45, 4, 3, 36, 3, 40, 15, 2, 17, 11, 57, 21, 7, 289, 3, 101, 23, 113, 33, 9, 53,
  4, 11, 2, 95, 6353, 149, 9, 97, 90, 7, 452, 5, 2878, 5, 22, 97, 8, 3, 31058, 45, 19, 27, 135, 13,
  3, 61, 10, 3, 4, 7, 4, 3, 2, 3, 3, 19, 13, 13, 11, 15]⟩

/-- The property Lowercase. -/
def lowerCase : CaseTable := ⟨[
  97, 26, 47, 1, 10, 1, 4, 1, 36, 24, 1, 8, 55, 2, 15, 2, 52, 3, 7, 1, 3, 2, 4, 1, 2, 1, 3, 3, 2, 1,
  9, 1, 1, 2, 1, 1, 2, 1, 8, 2, 2, 3, 6, 1, 2, 1, 18, 2, 17, 2, 66, 7, 2, 1, 2, 2, 1, 1, 12, 69, 2,
  35, 7, 2, 30, 5, 96, 1, 49, 1, 2, 4, 18, 1, 27, 35, 1, 2, 3, 3, 23, 5, 1, 1, 2, 1, 2, 2, 51, 48,
  110, 2, 144, 41, 2887, 43, 1, 4, 760, 6, 2178, 9, 1, 1, 117, 192, 213, 9, 97, 9, 8, 6, 10, 8, 8,
  8, 8, 6, 10, 8, 8, 8, 8, 14, 2, 8, 8, 8, 8, 8, 8, 5, 1, 2, 6, 1, 3, 3, 1, 2, 8, 4, 2, 2, 8, 8, 10,
  3, 1, 2, 121, 1, 13, 1, 16, 13, 109, 1, 3, 2, 3, 1, 27, 1, 4, 1, 4, 1, 2, 2, 8, 4, 4, 1, 33, 16,
  4, 1, 843, 26, 1862, 48, 1, 1, 3, 2, 10, 1, 1, 2, 1, 8, 101, 2, 14, 1, 12, 38, 1, 1, 5, 1, 31085,
  3, 145, 3, 61, 10, 24, 1, 1, 3, 25, 1, 65, 4, 1, 1, 1, 3, 821, 43, 1, 14, 6, 80, 20288, 7, 12, 5,
  1065, 26, 1229, 40, 136, 36, 155, 11, 1, 15, 1, 7, 1, 2, 451, 1, 2, 3, 1, 42, 1, 9, 1285, 51, 125,
  22, 2874, 32, 21888, 32, 59, 25, 25926, 26, 26, 7, 1, 18, 26, 26, 26, 4, 1, 1, 1, 7, 1, 11, 26,
  26, 26, 26, 26, 26, 26, 26, 26, 26, 26, 26, 26, 26, 26, 26, 26, 28, 28, 25, 1, 6, 26, 25, 1, 6,
  26, 25, 1, 6, 26, 25, 1, 6, 26, 25, 1, 6, 1, 1, 1844, 10, 1, 20, 6, 6, 261, 62, 2228, 34], [
  257, 53, 4, 13, 4, 45, 2, 3, 6, 3, 27, 5, 14, 3, 21, 15, 4, 15, 5, 3, 3, 57, 21, 7, 291, 3, 101,
  21, 115, 33, 9, 53, 2, 11, 4, 95, 6353, 147, 11, 95, 3434, 5, 20, 97, 10, 3, 31058, 45, 19, 25,
  137, 11, 5, 59, 12, 3, 2, 9, 4, 3, 8, 19, 11, 15, 4, 3, 2, 15]⟩

/-- The letters in title case, a capital letter and a small one in one character. -/
def titleCase : List Nat := [
  453, 1, 2, 1, 2, 1, 38, 1, 7573, 8, 8, 8, 8, 8, 12, 1, 15, 1, 47, 1]

/-- The property Case_Ignorable. -/
def caseIgnorable : List Nat := [
  39, 1, 6, 1, 11, 1, 35, 1, 1, 1, 71, 1, 4, 1, 1, 1, 4, 1, 2, 2, 503, 192, 4, 2, 4, 1, 9, 2, 1, 1,
  251, 7, 207, 1, 5, 1, 49, 45, 1, 1, 1, 2, 1, 2, 1, 1, 44, 1, 11, 6, 10, 11, 1, 1, 35, 1, 10, 21,
  16, 1, 101, 8, 1, 10, 1, 4, 33, 1, 1, 1, 30, 27, 91, 11, 58, 11, 4, 1, 2, 1, 24, 24, 43, 3, 44, 1,
  7, 2, 5, 9, 41, 58, 55, 1, 1, 1, 4, 8, 4, 1, 3, 7, 10, 2, 13, 1, 15, 1, 58, 1, 4, 4, 8, 1, 20, 2,
  26, 1, 2, 2, 57, 1, 4, 2, 4, 2, 2, 3, 3, 1, 30, 2, 3, 1, 11, 2, 57, 1, 4, 5, 1, 2, 4, 1, 20, 2,
  22, 6, 1, 1, 58, 1, 2, 1, 1, 4, 8, 1, 7, 2, 11, 2, 30, 1, 61, 1, 12, 1, 50, 1, 3, 1, 55, 1, 1, 3,
  5, 3, 1, 4, 7, 2, 11, 2, 29, 1, 58, 1, 2, 1, 6, 1, 5, 2, 20, 2, 28, 2, 57, 2, 4, 4, 8, 1, 20, 2,
  29, 1, 72, 1, 7, 3, 1, 1, 90, 1, 2, 7, 11, 9, 98, 1, 2, 9, 9, 1, 1, 7, 73, 2, 27, 1, 1, 1, 1, 1,
  55, 14, 1, 5, 1, 2, 5, 11, 1, 36, 9, 1, 102, 4, 1, 6, 1, 2, 2, 2, 25, 2, 4, 3, 16, 4, 13, 1, 2, 2,
  6, 1, 15, 1, 94, 1, 608, 3, 946, 3, 29, 2, 30, 2, 30, 2, 64, 2, 1, 7, 8, 1, 2, 11, 3, 1, 5, 1, 45,
  5, 51, 1, 65, 2, 34, 1, 118, 3, 4, 2, 9, 1, 6, 3, 219, 2, 2, 1, 58, 1, 1, 7, 1, 1, 1, 1, 2, 8, 6,
  10, 2, 1, 39, 1, 8, 46, 2, 12, 20, 4, 48, 1, 1, 5, 1, 1, 5, 1, 40, 9, 12, 2, 32, 4, 2, 2, 1, 3,
  56, 1, 1, 2, 3, 1, 1, 3, 58, 8, 2, 2, 64, 6, 82, 3, 1, 13, 1, 7, 4, 1, 6, 1, 3, 2, 50, 63, 13, 1,
  34, 101, 445, 1, 1, 3, 11, 3, 13, 3, 13, 3, 13, 2, 12, 5, 8, 2, 10, 1, 2, 1, 2, 5, 49, 5, 1, 10,
  1, 1, 13, 1, 16, 13, 51, 33, 2955, 2, 113, 3, 125, 1, 15, 1, 96, 32, 47, 1, 469, 1, 36, 4, 3, 5,
  5, 1, 93, 6, 93, 3, 28438, 1, 1250, 6, 270, 1, 98, 4, 1, 10, 1, 1, 28, 4, 80, 2, 14, 34, 78, 1,
  23, 3, 102, 4, 3, 2, 8, 1, 3, 1, 4, 1, 25, 2, 5, 1, 151, 2, 26, 18, 13, 1, 38, 8, 25, 11, 46, 3,
  48, 1, 2, 4, 2, 2, 17, 1, 21, 2, 66, 6, 2, 2, 2, 2, 12, 1, 8, 1, 35, 1, 11, 1, 51, 1, 1, 3, 2, 2,
  5, 2, 1, 1, 27, 1, 14, 2, 5, 2, 1, 1, 100, 5, 9, 3, 121, 1, 2, 1, 4, 1, 20272, 1, 147, 17, 573,
  16, 3, 1, 12, 16, 34, 1, 2, 1, 169, 1, 7, 1, 6, 1, 11, 1, 35, 1, 1, 1, 47, 1, 45, 2, 67, 1, 21, 3,
  513, 1, 226, 1, 149, 5, 1029, 6, 1, 42, 1, 9, 582, 3, 1, 2, 5, 4, 40, 3, 4, 1, 165, 2, 573, 4, 38,
  1, 26, 5, 1, 1, 315, 2, 24, 1, 52, 6, 70, 11, 49, 4, 123, 1, 54, 15, 41, 1, 2, 2, 10, 3, 49, 4, 2,
  2, 2, 1, 4, 1, 10, 1, 50, 3, 36, 5, 1, 8, 62, 1, 12, 2, 52, 9, 10, 4, 2, 1, 95, 3, 2, 1, 1, 2, 6,
  1, 2, 1, 157, 1, 3, 8, 21, 2, 57, 2, 3, 1, 37, 7, 3, 5, 70, 6, 13, 1, 1, 1, 1, 1, 14, 2, 85, 8, 2,
  3, 1, 1, 23, 1, 84, 6, 1, 1, 4, 2, 1, 2, 238, 4, 6, 2, 1, 2, 27, 2, 85, 8, 2, 1, 1, 2, 106, 1, 1,
  1, 2, 6, 1, 1, 101, 1, 1, 1, 2, 4, 1, 5, 259, 9, 1, 2, 256, 2, 1, 1, 4, 1, 144, 4, 2, 2, 4, 1, 32,
  10, 40, 6, 2, 4, 8, 1, 9, 6, 2, 3, 46, 13, 1, 2, 198, 1, 1, 3, 1, 1, 201, 7, 1, 6, 1, 1, 82, 22,
  2, 7, 1, 2, 1, 2, 122, 6, 3, 1, 1, 2, 1, 7, 1, 1, 72, 2, 3, 1, 1, 1, 65, 1, 281, 2, 11, 2, 52, 5,
  5, 1, 1, 1, 23, 1, 5333, 17, 6, 15, 11464, 12, 3, 3, 2496, 5, 59, 7, 9, 4, 508, 3, 40, 2, 482, 1,
  63, 17, 64, 2, 1, 2, 13, 2, 16380, 4, 1, 7, 1, 2, 3230, 2, 1, 4, 4700, 46, 2, 23, 544, 3, 9, 16,
  2, 7, 30, 4, 148, 3, 1979, 55, 4, 50, 8, 1, 14, 1, 22, 5, 1, 15, 1360, 7, 1, 17, 2, 7, 1, 2, 1, 5,
  5, 62, 33, 1, 160, 14, 368, 1, 61, 4, 507, 5, 254, 2, 243, 1, 2, 1, 7, 2, 5, 1, 9, 1, 464, 7, 109,
  8, 2735, 5, 789505, 1, 30, 96, 128, 240]

/-- The capital letters and the small letters that are each other's upper and lower case. -/
def pairs : List Run := runsFrom 0 [
  (65, 26, 1, 32), (101, 23, 1, 32), (1, 7, 1, 32), (33, 24, 2, 1), (3, 3, 2, 1), (2, 8, 2, 1),
  (2, 23, 2, 1), (1, 1, 1, -121), (0, 3, 2, 1), (3, 1, 1, 210), (0, 2, 2, 1), (1, 1, 1, 206),
  (0, 1, 1, 1), (1, 2, 1, 205), (0, 1, 1, 1), (2, 1, 1, 79), (0, 1, 1, 202), (0, 1, 1, 203),
  (0, 1, 1, 1), (1, 1, 1, 205), (0, 1, 1, 207), (1, 1, 1, 211), (0, 1, 1, 209), (0, 1, 1, 1),
  (3, 1, 1, 211), (0, 1, 1, 213), (1, 1, 1, 214), (0, 3, 2, 1), (1, 1, 1, 218), (0, 1, 1, 1),
  (1, 1, 1, 218), (2, 1, 1, 1), (1, 1, 1, 218), (0, 1, 1, 1), (1, 2, 1, 217), (0, 2, 2, 1),
  (1, 1, 1, 219), (0, 1, 1, 1), (3, 1, 1, 1), (7, 1, 1, 2), (2, 1, 1, 2), (2, 1, 1, 2),
  (2, 8, 2, 1), (2, 9, 2, 1), (2, 1, 1, 2), (2, 1, 1, 1), (1, 1, 1, -97), (0, 1, 1, -56),
  (0, 20, 2, 1), (1, 1, 1, -130), (1, 9, 2, 1), (7, 1, 1, 10795), (0, 1, 1, 1), (1, 1, 1, -163),
  (0, 1, 1, 10792), (2, 1, 1, 1), (1, 1, 1, -195), (0, 1, 1, 69), (0, 1, 1, 71), (0, 5, 2, 1),
  (289, 2, 2, 1), (3, 1, 1, 1), (8, 1, 1, 116), (6, 1, 1, 38), (1, 3, 1, 37), (1, 1, 1, 64),
  (1, 2, 1, 63), (1, 17, 1, 32), (1, 9, 1, 32), (35, 1, 1, 8), (8, 12, 2, 1), (8, 1, 1, 1),
  (1, 1, 1, -7), (0, 1, 1, 1), (2, 3, 1, -130), (0, 16, 1, 80), (0, 32, 1, 32), (48, 17, 2, 1),
  (9, 27, 2, 1), (1, 1, 1, 15), (0, 7, 2, 1), (2, 48, 2, 1), (2, 38, 1, 48), (2889, 38, 1, 7264),
  (1, 1, 1, 7264), (5, 1, 1, 7264), (722, 80, 1, 38864), (0, 6, 1, 8), (2195, 1, 1, 1),
  (6, 43, 1, -3008), (2, 3, 1, -3008), (320, 75, 2, 1), (11, 48, 2, 1), (9, 8, 1, -8),
  (8, 6, 1, -8), (10, 8, 1, -8), (8, 8, 1, -8), (8, 6, 1, -8), (11, 4, 2, -8), (8, 8, 1, -8),
  (72, 2, 1, -8), (0, 2, 1, -74), (12, 4, 1, -86), (12, 2, 1, -8), (0, 2, 1, -100), (12, 2, 1, -8),
  (0, 2, 1, -112), (0, 1, 1, -7), (11, 2, 1, -128), (0, 2, 1, -126), (310, 1, 1, 28),
  (45, 16, 1, 16), (19, 1, 1, 1), (818, 26, 1, 26), (1840, 48, 1, 48), (48, 1, 1, 1),
  (1, 1, 1, -10743), (0, 1, 1, -3814), (0, 1, 1, -10727), (2, 3, 2, 1), (1, 1, 1, -10780),
  (0, 1, 1, -10749), (0, 1, 1, -10783), (0, 1, 1, -10782), (1, 1, 1, 1), (2, 1, 1, 1),
  (8, 2, 1, -10815), (0, 50, 2, 1), (8, 2, 2, 1), (4, 1, 1, 1), (31053, 23, 2, 1), (19, 14, 2, 1),
  (135, 7, 2, 1), (3, 31, 2, 1), (10, 2, 2, 1), (1, 1, 1, -35332), (0, 5, 2, 1), (4, 1, 1, 1),
  (1, 1, 1, -42280), (2, 2, 2, 1), (3, 10, 2, 1), (1, 1, 1, -42308), (0, 1, 1, -42319),
  (0, 1, 1, -42315), (0, 1, 1, -42305), (0, 1, 1, -42308), (1, 1, 1, -42258), (0, 1, 1, -42282),
  (0, 1, 1, -42261), (0, 1, 1, 928), (0, 8, 2, 1), (1, 1, 1, -48), (0, 1, 1, -42307),
  (0, 1, 1, -35384), (0, 2, 2, 1), (1, 1, 1, -42343), (0, 8, 2, 1), (1, 1, 1, -42561),
  (24, 1, 1, 1), (22315, 26, 1, 32), (1221, 40, 1, 40), (136, 36, 1, 40), (156, 11, 1, 39),
  (1, 15, 1, 39), (1, 7, 1, 39), (1, 2, 1, 39), (1770, 51, 1, 64), (157, 22, 1, 32),
  (2874, 32, 1, 32), (21888, 32, 1, 32), (64, 25, 1, 27), (31303, 34, 1, 34)]

/-- The vowels with an iota below: eight small letters, eight in title case, and the first of the
capital letters without it. -/
def iotas : List (Nat × Nat) := [(8064, 7944), (8080, 7976), (8096, 8040)]

/-- The other mappings to upper case: to a sequence, or to a letter with another lower case. -/
def toUpperAlone : List (Nat × List Nat) :=
  iotas.flatMap (fun (first, capital) =>
    (List.range 16).map fun place => (first + place, [capital + place % 8, 921])) ++ [
  (181, [924]), (223, [83, 83]), (305, [73]), (329, [700, 78]), (383, [83]), (453, [452]),
  (456, [455]), (459, [458]), (496, [74, 780]), (498, [497]), (837, [921]), (912, [921, 776, 769]),
  (944, [933, 776, 769]), (962, [931]), (976, [914]), (977, [920]), (981, [934]), (982, [928]),
  (1008, [922]), (1009, [929]), (1013, [917]), (1415, [1333, 1362]), (7296, [1042]), (7297, [1044]),
  (7298, [1054]), (7299, [1057]), (7300, [1058]), (7301, [1058]), (7302, [1066]), (7303, [1122]),
  (7304, [42570]), (7830, [72, 817]), (7831, [84, 776]), (7832, [87, 778]), (7833, [89, 778]),
  (7834, [65, 702]), (7835, [7776]), (8016, [933, 787]), (8018, [933, 787, 768]),
  (8020, [933, 787, 769]), (8022, [933, 787, 834]), (8114, [8122, 921]), (8115, [913, 921]),
  (8116, [902, 921]), (8118, [913, 834]), (8119, [913, 834, 921]), (8124, [913, 921]),
  (8126, [921]), (8130, [8138, 921]), (8131, [919, 921]), (8132, [905, 921]), (8134, [919, 834]),
  (8135, [919, 834, 921]), (8140, [919, 921]), (8146, [921, 776, 768]), (8147, [921, 776, 769]),
  (8150, [921, 834]), (8151, [921, 776, 834]), (8162, [933, 776, 768]), (8163, [933, 776, 769]),
  (8164, [929, 787]), (8166, [933, 834]), (8167, [933, 776, 834]), (8178, [8186, 921]),
  (8179, [937, 921]), (8180, [911, 921]), (8182, [937, 834]), (8183, [937, 834, 921]),
  (8188, [937, 921]), (64256, [70, 70]), (64257, [70, 73]), (64258, [70, 76]),
  (64259, [70, 70, 73]), (64260, [70, 70, 76]), (64261, [83, 84]), (64262, [83, 84]),
  (64275, [1348, 1350]), (64276, [1348, 1333]), (64277, [1348, 1339]), (64278, [1358, 1350]),
  (64279, [1348, 1341])]

/-- The other mappings to lower case. -/
def toLowerAlone : List (Nat × List Nat) :=
  iotas.flatMap (fun (first, _) =>
    (List.range 8).map fun place => (first + 8 + place, [first + place])) ++ [
  (304, [105, 775]), (453, [454]), (456, [457]), (459, [460]), (498, [499]), (1012, [952]),
  (7838, [223]), (8124, [8115]), (8140, [8131]), (8188, [8179]), (8486, [969]), (8490, [107]),
  (8491, [229])]

end Sbe.Text.Letter
