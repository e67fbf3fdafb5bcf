import Libhevc.Decoder.ParameterSets
import Libhevc.Lib.Memory

/-!
# Scaling matrices

The default tables, `COPY_DEFAULT_SCALING_LIST` and `ihevcd_scaling_list_data` with
the array of the 24 matrices that it fills.
-/

namespace Libhevc.Decoder

open Memory

-- ---------------------------------------------------------------------------
-- Tables
-- ---------------------------------------------------------------------------

def gi2FlatScaleMat32x32 : List Int := List.replicate 1024 16

def gi2IntraDefaultScaleMat8x8 : List Int :=
  [16, 16, 16, 16, 17, 18, 21, 24,
   16, 16, 16, 16, 17, 19, 22, 25,
   16, 16, 17, 18, 20, 22, 25, 29,
   16, 16, 18, 21, 24, 27, 31, 36,
   17, 17, 20, 24, 30, 35, 41, 47,
   18, 19, 22, 27, 35, 44, 54, 65,
   21, 22, 25, 31, 41, 54, 70, 88,
   24, 25, 29, 36, 47, 65, 88, 115]

def gi2IntraDefaultScaleMat16x16 : List Int :=
  [16, 16, 16, 16, 16, 16, 16, 16, 17, 17, 18, 18, 21, 21, 24, 24,
   16, 16, 16, 16, 16, 16, 16, 16, 17, 17, 18, 18, 21, 21, 24, 24,
   16, 16, 16, 16, 16, 16, 16, 16, 17, 17, 19, 19, 22, 22, 25, 25,
   16, 16, 16, 16, 16, 16, 16, 16, 17, 17, 19, 19, 22, 22, 25, 25,
   16, 16, 16, 16, 17, 17, 18, 18, 20, 20, 22, 22, 25, 25, 29, 29,
   16, 16, 16, 16, 17, 17, 18, 18, 20, 20, 22, 22, 25, 25, 29, 29,
   16, 16, 16, 16, 18, 18, 21, 21, 24, 24, 27, 27, 31, 31, 36, 36,
   16, 16, 16, 16, 18, 18, 21, 21, 24, 24, 27, 27, 31, 31, 36, 36,
   17, 17, 17, 17, 20, 20, 24, 24, 30, 30, 35, 35, 41, 41, 47, 47,
   17, 17, 17, 17, 20, 20, 24, 24, 30, 30, 35, 35, 41, 41, 47, 47,
   18, 18, 19, 19, 22, 22, 27, 27, 35, 35, 44, 44, 54, 54, 65, 65,
   18, 18, 19, 19, 22, 22, 27, 27, 35, 35, 44, 44, 54, 54, 65, 65,
   21, 21, 22, 22, 25, 25, 31, 31, 41, 41, 54, 54, 70, 70, 88, 88,
   21, 21, 22, 22, 25, 25, 31, 31, 41, 41, 54, 54, 70, 70, 88, 88,
   24, 24, 25, 25, 29, 29, 36, 36, 47, 47, 65, 65, 88, 88, 115, 115,
   24, 24, 25, 25, 29, 29, 36, 36, 47, 47, 65, 65, 88, 88, 115, 115]

def gi2IntraDefaultScaleMat32x32 : List Int :=
  [16, 16, 16, 16, 16, 16, 16, 16, 16, 16, 16, 16, 16, 16, 16, 16, 17, 17, 17, 17, 18, 18, 18,
   18, 21, 21, 21, 21, 24, 24, 24, 24,
   16, 16, 16, 16, 16, 16, 16, 16, 16, 16, 16, 16, 16, 16, 16, 16, 17, 17, 17, 17, 18, 18, 18,
   18, 21, 21, 21, 21, 24, 24, 24, 24,
   16, 16, 16, 16, 16, 16, 16, 16, 16, 16, 16, 16, 16, 16, 16, 16, 17, 17, 17, 17, 18, 18, 18,
   18, 21, 21, 21, 21, 24, 24, 24, 24,
   16, 16, 16, 16, 16, 16, 16, 16, 16, 16, 16, 16, 16, 16, 16, 16, 17, 17, 17, 17, 18, 18, 18,
   18, 21, 21, 21, 21, 24, 24, 24, 24,
   16, 16, 16, 16, 16, 16, 16, 16, 16, 16, 16, 16, 16, 16, 16, 16, 17, 17, 17, 17, 19, 19, 19,
   19, 22, 22, 22, 22, 25, 25, 25, 25,
   16, 16, 16, 16, 16, 16, 16, 16, 16, 16, 16, 16, 16, 16, 16, 16, 17, 17, 17, 17, 19, 19, 19,
   19, 22, 22, 22, 22, 25, 25, 25, 25,
   16, 16, 16, 16, 16, 16, 16, 16, 16, 16, 16, 16, 16, 16, 16, 16, 17, 17, 17, 17, 19, 19, 19,
   19, 22, 22, 22, 22, 25, 25, 25, 25,
   16, 16, 16, 16, 16, 16, 16, 16, 16, 16, 16, 16, 16, 16, 16, 16, 17, 17, 17, 17, 19, 19, 19,
   19, 22, 22, 22, 22, 25, 25, 25, 25,
   16, 16, 16, 16, 16, 16, 16, 16, 17, 17, 17, 17, 18, 18, 18, 18, 20, 20, 20, 20, 22, 22, 22,
   22, 25, 25, 25, 25, 29, 29, 29, 29,
   16, 16, 16, 16, 16, 16, 16, 16, 17, 17, 17, 17, 18, 18, 18, 18, 20, 20, 20, 20, 22, 22, 22,
   22, 25, 25, 25, 25, 29, 29, 29, 29,
   16, 16, 16, 16, 16, 16, 16, 16, 17, 17, 17, 17, 18, 18, 18, 18, 20, 20, 20, 20, 22, 22, 22,
   22, 25, 25, 25, 25, 29, 29, 29, 29,
   16, 16, 16, 16, 16, 16, 16, 16, 17, 17, 17, 17, 18, 18, 18, 18, 20, 20, 20, 20, 22, 22, 22,
   22, 25, 25, 25, 25, 29, 29, 29, 29,
   16, 16, 16, 16, 16, 16, 16, 16, 18, 18, 18, 18, 21, 21, 21, 21, 24, 24, 24, 24, 27, 27, 27,
   27, 31, 31, 31, 31, 36, 36, 36, 36,
   16, 16, 16, 16, 16, 16, 16, 16, 18, 18, 18, 18, 21, 21, 21, 21, 24, 24, 24, 24, 27, 27, 27,
   27, 31, 31, 31, 31, 36, 36, 36, 36,
   16, 16, 16, 16, 16, 16, 16, 16, 18, 18, 18, 18, 21, 21, 21, 21, 24, 24, 24, 24, 27, 27, 27,
   27, 31, 31, 31, 31, 36, 36, 36, 36,
   16, 16, 16, 16, 16, 16, 16, 16, 18, 18, 18, 18, 21, 21, 21, 21, 24, 24, 24, 24, 27, 27, 27,
   27, 31, 31, 31, 31, 36, 36, 36, 36,
   17, 17, 17, 17, 17, 17, 17, 17, 20, 20, 20, 20, 24, 24, 24, 24, 30, 30, 30, 30, 35, 35, 35,
   35, 41, 41, 41, 41, 47, 47, 47, 47,
   17, 17, 17, 17, 17, 17, 17, 17, 20, 20, 20, 20, 24, 24, 24, 24, 30, 30, 30, 30, 35, 35, 35,
   35, 41, 41, 41, 41, 47, 47, 47, 47,
   17, 17, 17, 17, 17, 17, 17, 17, 20, 20, 20, 20, 24, 24, 24, 24, 30, 30, 30, 30, 35, 35, 35,
   35, 41, 41, 41, 41, 47, 47, 47, 47,
   17, 17, 17, 17, 17, 17, 17, 17, 20, 20, 20, 20, 24, 24, 24, 24, 30, 30, 30, 30, 35, 35, 35,
   35, 41, 41, 41, 41, 47, 47, 47, 47,
   18, 18, 18, 18, 19, 19, 19, 19, 22, 22, 22, 22, 27, 27, 27, 27, 35, 35, 35, 35, 44, 44, 44,
   44, 54, 54, 54, 54, 65, 65, 65, 65,
   18, 18, 18, 18, 19, 19, 19, 19, 22, 22, 22, 22, 27, 27, 27, 27, 35, 35, 35, 35, 44, 44, 44,
   44, 54, 54, 54, 54, 65, 65, 65, 65,
   18, 18, 18, 18, 19, 19, 19, 19, 22, 22, 22, 22, 27, 27, 27, 27, 35, 35, 35, 35, 44, 44, 44,
   44, 54, 54, 54, 54, 65, 65, 65, 65,
   18, 18, 18, 18, 19, 19, 19, 19, 22, 22, 22, 22, 27, 27, 27, 27, 35, 35, 35, 35, 44, 44, 44,
   44, 54, 54, 54, 54, 65, 65, 65, 65,
   21, 21, 21, 21, 22, 22, 22, 22, 25, 25, 25, 25, 31, 31, 31, 31, 41, 41, 41, 41, 54, 54, 54,
   54, 70, 70, 70, 70, 88, 88, 88, 88,
   21, 21, 21, 21, 22, 22, 22, 22, 25, 25, 25, 25, 31, 31, 31, 31, 41, 41, 41, 41, 54, 54, 54,
   54, 70, 70, 70, 70, 88, 88, 88, 88,
   21, 21, 21, 21, 22, 22, 22, 22, 25, 25, 25, 25, 31, 31, 31, 31, 41, 41, 41, 41, 54, 54, 54,
   54, 70, 70, 70, 70, 88, 88, 88, 88,
   21, 21, 21, 21, 22, 22, 22, 22, 25, 25, 25, 25, 31, 31, 31, 31, 41, 41, 41, 41, 54, 54, 54,
   54, 70, 70, 70, 70, 88, 88, 88, 88,
   24, 24, 24, 24, 25, 25, 25, 25, 29, 29, 29, 29, 36, 36, 36, 36, 47, 47, 47, 47, 65, 65, 65,
   65, 88, 88, 88, 88, 115, 115, 115, 115,
   24, 24, 24, 24, 25, 25, 25, 25, 29, 29, 29, 29, 36, 36, 36, 36, 47, 47, 47, 47, 65, 65, 65,
   65, 88, 88, 88, 88, 115, 115, 115, 115,
   24, 24, 24, 24, 25, 25, 25, 25, 29, 29, 29, 29, 36, 36, 36, 36, 47, 47, 47, 47, 65, 65, 65,
   65, 88, 88, 88, 88, 115, 115, 115, 115,
   24, 24, 24, 24, 25, 25, 25, 25, 29, 29, 29, 29, 36, 36, 36, 36, 47, 47, 47, 47, 65, 65, 65,
   65, 88, 88, 88, 88, 115, 115, 115, 115]

def gi2InterDefaultScaleMat8x8 : List Int :=
  [16, 16, 16, 16, 17, 18, 20, 24,
   16, 16, 16, 17, 18, 20, 24, 25,
   16, 16, 17, 18, 20, 24, 25, 28,
   16, 17, 18, 20, 24, 25, 28, 33,
   17, 18, 20, 24, 25, 28, 33, 41,
   18, 20, 24, 25, 28, 33, 41, 54,
   20, 24, 25, 28, 33, 41, 54, 71,
   24, 25, 28, 33, 41, 54, 71, 91]

def gi2InterDefaultScaleMat16x16 : List Int :=
  [16, 16, 16, 16, 16, 16, 16, 16, 17, 17, 18, 18, 20, 20, 24, 24,
   16, 16, 16, 16, 16, 16, 16, 16, 17, 17, 18, 18, 20, 20, 24, 24,
   16, 16, 16, 16, 16, 16, 17, 17, 18, 18, 20, 20, 24, 24, 25, 25,
   16, 16, 16, 16, 16, 16, 17, 17, 18, 18, 20, 20, 24, 24, 25, 25,
   16, 16, 16, 16, 17, 17, 18, 18, 20, 20, 24, 24, 25, 25, 28, 28,
   16, 16, 16, 16, 17, 17, 18, 18, 20, 20, 24, 24, 25, 25, 28, 28,
   16, 16, 17, 17, 18, 18, 20, 20, 24, 24, 25, 25, 28, 28, 33, 33,
   16, 16, 17, 17, 18, 18, 20, 20, 24, 24, 25, 25, 28, 28, 33, 33,
   17, 17, 18, 18, 20, 20, 24, 24, 25, 25, 28, 28, 33, 33, 41, 41,
   17, 17, 18, 18, 20, 20, 24, 24, 25, 25, 28, 28, 33, 33, 41, 41,
   18, 18, 20, 20, 24, 24, 25, 25, 28, 28, 33, 33, 41, 41, 54, 54,
   18, 18, 20, 20, 24, 24, 25, 25, 28, 28, 33, 33, 41, 41, 54, 54,
   20, 20, 24, 24, 25, 25, 28, 28, 33, 33, 41, 41, 54, 54, 71, 71,
   20, 20, 24, 24, 25, 25, 28, 28, 33, 33, 41, 41, 54, 54, 71, 71,
   24, 24, 25, 25, 28, 28, 33, 33, 41, 41, 54, 54, 71, 71, 91, 91,
   24, 24, 25, 25, 28, 28, 33, 33, 41, 41, 54, 54, 71, 71, 91, 91]

def gi2InterDefaultScaleMat32x32 : List Int :=
  [16, 16, 16, 16, 16, 16, 16, 16, 16, 16, 16, 16, 16, 16, 16, 16, 17, 17, 17, 17, 18, 18, 18,
   18, 20, 20, 20, 20, 24, 24, 24, 24,
   16, 16, 16, 16, 16, 16, 16, 16, 16, 16, 16, 16, 16, 16, 16, 16, 17, 17, 17, 17, 18, 18, 18,
   18, 20, 20, 20, 20, 24, 24, 24, 24,
   16, 16, 16, 16, 16, 16, 16, 16, 16, 16, 16, 16, 16, 16, 16, 16, 17, 17, 17, 17, 18, 18, 18,
   18, 20, 20, 20, 20, 24, 24, 24, 24,
   16, 16, 16, 16, 16, 16, 16, 16, 16, 16, 16, 16, 16, 16, 16, 16, 17, 17, 17, 17, 18, 18, 18,
   18, 20, 20, 20, 20, 24, 24, 24, 24,
   16, 16, 16, 16, 16, 16, 16, 16, 16, 16, 16, 16, 17, 17, 17, 17, 18, 18, 18, 18, 20, 20, 20,
   20, 24, 24, 24, 24, 25, 25, 25, 25,
   16, 16, 16, 16, 16, 16, 16, 16, 16, 16, 16, 16, 17, 17, 17, 17, 18, 18, 18, 18, 20, 20, 20,
   20, 24, 24, 24, 24, 25, 25, 25, 25,
   16, 16, 16, 16, 16, 16, 16, 16, 16, 16, 16, 16, 17, 17, 17, 17, 18, 18, 18, 18, 20, 20, 20,
   20, 24, 24, 24, 24, 25, 25, 25, 25,
   16, 16, 16, 16, 16, 16, 16, 16, 16, 16, 16, 16, 17, 17, 17, 17, 18, 18, 18, 18, 20, 20, 20,
   20, 24, 24, 24, 24, 25, 25, 25, 25,
   16, 16, 16, 16, 16, 16, 16, 16, 17, 17, 17, 17, 18, 18, 18, 18, 20, 20, 20, 20, 24, 24, 24,
   24, 25, 25, 25, 25, 28, 28, 28, 28,
   16, 16, 16, 16, 16, 16, 16, 16, 17, 17, 17, 17, 18, 18, 18, 18, 20, 20, 20, 20, 24, 24, 24,
   24, 25, 25, 25, 25, 28, 28, 28, 28,
   16, 16, 16, 16, 16, 16, 16, 16, 17, 17, 17, 17, 18, 18, 18, 18, 20, 20, 20, 20, 24, 24, 24,
   24, 25, 25, 25, 25, 28, 28, 28, 28,
   16, 16, 16, 16, 16, 16, 16, 16, 17, 17, 17, 17, 18, 18, 18, 18, 20, 20, 20, 20, 24, 24, 24,
   24, 25, 25, 25, 25, 28, 28, 28, 28,
   16, 16, 16, 16, 17, 17, 17, 17, 18, 18, 18, 18, 20, 20, 20, 20, 24, 24, 24, 24, 25, 25, 25,
   25, 28, 28, 28, 28, 33, 33, 33, 33,
   16, 16, 16, 16, 17, 17, 17, 17, 18, 18, 18, 18, 20, 20, 20, 20, 24, 24, 24, 24, 25, 25, 25,
   25, 28, 28, 28, 28, 33, 33, 33, 33,
   16, 16, 16, 16, 17, 17, 17, 17, 18, 18, 18, 18, 20, 20, 20, 20, 24, 24, 24, 24, 25, 25, 25,
   25, 28, 28, 28, 28, 33, 33, 33, 33,
   16, 16, 16, 16, 17, 17, 17, 17, 18, 18, 18, 18, 20, 20, 20, 20, 24, 24, 24, 24, 25, 25, 25,
   25, 28, 28, 28, 28, 33, 33, 33, 33,
   17, 17, 17, 17, 18, 18, 18, 18, 20, 20, 20, 20, 24, 24, 24, 24, 25, 25, 25, 25, 28, 28, 28,
   28, 33, 33, 33, 33, 41, 41, 41, 41,
   17, 17, 17, 17, 18, 18, 18, 18, 20, 20, 20, 20, 24, 24, 24, 24, 25, 25, 25, 25, 28, 28, 28,
   28, 33, 33, 33, 33, 41, 41, 41, 41,
   17, 17, 17, 17, 18, 18, 18, 18, 20, 20, 20, 20, 24, 24, 24, 24, 25, 25, 25, 25, 28, 28, 28,
   28, 33, 33, 33, 33, 41, 41, 41, 41,
   17, 17, 17, 17, 18, 18, 18, 18, 20, 20, 20, 20, 24, 24, 24, 24, 25, 25, 25, 25, 28, 28, 28,
   28, 33, 33, 33, 33, 41, 41, 41, 41,
   18, 18, 18, 18, 20, 20, 20, 20, 24, 24, 24, 24, 25, 25, 25, 25, 28, 28, 28, 28, 33, 33, 33,
   33, 41, 41, 41, 41, 54, 54, 54, 54,
   18, 18, 18, 18, 20, 20, 20, 20, 24, 24, 24, 24, 25, 25, 25, 25, 28, 28, 28, 28, 33, 33, 33,
   33, 41, 41, 41, 41, 54, 54, 54, 54,
   18, 18, 18, 18, 20, 20, 20, 20, 24, 24, 24, 24, 25, 25, 25, 25, 28, 28, 28, 28, 33, 33, 33,
   33, 41, 41, 41, 41, 54, 54, 54, 54,
   18, 18, 18, 18, 20, 20, 20, 20, 24, 24, 24, 24, 25, 25, 25, 25, 28, 28, 28, 28, 33, 33, 33,
   33, 41, 41, 41, 41, 54, 54, 54, 54,
   20, 20, 20, 20, 24, 24, 24, 24, 25, 25, 25, 25, 28, 28, 28, 28, 33, 33, 33, 33, 41, 41, 41,
   41, 54, 54, 54, 54, 71, 71, 71, 71,
   20, 20, 20, 20, 24, 24, 24, 24, 25, 25, 25, 25, 28, 28, 28, 28, 33, 33, 33, 33, 41, 41, 41,
   41, 54, 54, 54, 54, 71, 71, 71, 71,
   20, 20, 20, 20, 24, 24, 24, 24, 25, 25, 25, 25, 28, 28, 28, 28, 33, 33, 33, 33, 41, 41, 41,
   41, 54, 54, 54, 54, 71, 71, 71, 71,
   20, 20, 20, 20, 24, 24, 24, 24, 25, 25, 25, 25, 28, 28, 28, 28, 33, 33, 33, 33, 41, 41, 41,
   41, 54, 54, 54, 54, 71, 71, 71, 71,
   24, 24, 24, 24, 25, 25, 25, 25, 28, 28, 28, 28, 33, 33, 33, 33, 41, 41, 41, 41, 54, 54, 54,
   54, 71, 71, 71, 71, 91, 91, 91, 91,
   24, 24, 24, 24, 25, 25, 25, 25, 28, 28, 28, 28, 33, 33, 33, 33, 41, 41, 41, 41, 54, 54, 54,
   54, 71, 71, 71, 71, 91, 91, 91, 91,
   24, 24, 24, 24, 25, 25, 25, 25, 28, 28, 28, 28, 33, 33, 33, 33, 41, 41, 41, 41, 54, 54, 54,
   54, 71, 71, 71, 71, 91, 91, 91, 91,
   24, 24, 24, 24, 25, 25, 25, 25, 28, 28, 28, 28, 33, 33, 33, 33, 41, 41, 41, 41, 54, 54, 54,
   54, 71, 71, 71, 71, 91, 91, 91, 91]

/-- The up-right diagonal of `gau1_ihevc_invscan4x4` -/
def gau1IhevcInvscan4x4 : List Nat :=
  [0, 4, 1, 8,
   5, 2, 12, 9,
   6, 3, 13, 10,
   7, 14, 11, 15]

/-- The up-right diagonal of `gau1_ihevc_invscan8x8` -/
def gau1IhevcInvscan8x8 : List Nat :=
  [0, 8, 1, 16, 9, 2, 24, 17,
   10, 3, 32, 25, 18, 11, 4, 40,
   33, 26, 19, 12, 5, 48, 41, 34,
   27, 20, 13, 6, 56, 49, 42, 35,
   28, 21, 14, 7, 57, 50, 43, 36,
   29, 22, 15, 58, 51, 44, 37, 30,
   23, 59, 52, 45, 38, 31, 60, 53,
   46, 39, 61, 54, 47, 62, 55, 63]

/-- `gapv_ihevc_invscan[1]` and `gapv_ihevc_invscan[2]` -/
def gapvIhevcInvscan (i : Nat) : List Nat :=
  if i = 1 then gau1IhevcInvscan4x4 else gau1IhevcInvscan8x8

def scalingMatOffset (i : Nat) : Nat :=
  [0, 16, 32, 48, 64, 80, 96, 160, 224, 288, 352, 416,
   480, 736, 992, 1248, 1504, 1760, 2016, 3040, 4064, 5088, 6112, 7136].getD i 0

-- ---------------------------------------------------------------------------
-- The array
-- ---------------------------------------------------------------------------

/-- `pi2_scaling_mat` -/
abbrev ScalingMat := Nat → Int

/-- The destinations of `COPY_DEFAULT_SCALING_LIST` and what is copied to each. -/
def defaultCopies : List (Nat × List Int) :=
  [(0, gi2FlatScaleMat32x32.take (6 * 16)),
   (scalingMatOffset 6, gi2IntraDefaultScaleMat8x8),
   (scalingMatOffset 7, gi2IntraDefaultScaleMat8x8),
   (scalingMatOffset 8, gi2IntraDefaultScaleMat8x8),
   (scalingMatOffset 9, gi2InterDefaultScaleMat8x8),
   (scalingMatOffset 10, gi2InterDefaultScaleMat8x8),
   (scalingMatOffset 11, gi2InterDefaultScaleMat8x8),
   (scalingMatOffset 12, gi2IntraDefaultScaleMat16x16),
   (scalingMatOffset 13, gi2IntraDefaultScaleMat16x16),
   (scalingMatOffset 14, gi2IntraDefaultScaleMat16x16),
   (scalingMatOffset 15, gi2InterDefaultScaleMat16x16),
   (scalingMatOffset 16, gi2InterDefaultScaleMat16x16),
   (scalingMatOffset 17, gi2InterDefaultScaleMat16x16),
   (scalingMatOffset 18, gi2IntraDefaultScaleMat32x32),
   (scalingMatOffset 19, gi2IntraDefaultScaleMat32x32),
   (scalingMatOffset 20, gi2IntraDefaultScaleMat32x32),
   (scalingMatOffset 21, gi2InterDefaultScaleMat32x32),
   (scalingMatOffset 22, gi2InterDefaultScaleMat32x32),
   (scalingMatOffset 23, gi2InterDefaultScaleMat32x32)]

def copyDefaultScalingList (mat : ScalingMat) : ScalingMat :=
  defaultCopies.foldl (fun mat c => copy mat c.1 c.2) mat

/-- Four cells in a row. -/
def put4 (mat : ScalingMat) (a : Nat) (nextCoef : Int) : ScalingMat :=
  set (set (set (set mat a nextCoef) (a + 1) nextCoef) (a + 2) nextCoef) (a + 3) nextCoef

/-- The stores of one coefficient of a matrix at `base`, for 4x4 and 8x8. -/
def putCoef (base : Nat) (mat : ScalingMat) (pos : Nat) (nextCoef : Int) : ScalingMat :=
  set mat (base + pos) nextCoef

def offset16x16 (pos : Nat) : Nat := (pos >>> 3) * 16 * 2 + (pos &&& 0x7) * 2

def putCoef16x16 (base : Nat) (mat : ScalingMat) (pos : Nat) (nextCoef : Int) : ScalingMat :=
  let offset := base + offset16x16 pos
  set (set (set (set mat offset nextCoef) (offset + 1) nextCoef) (offset + 16) nextCoef)
    (offset + 16 + 1) nextCoef

def offset32x32 (pos : Nat) : Nat := (pos >>> 3) * 32 * 4 + (pos &&& 0x7) * 4

def putCoef32x32 (base : Nat) (mat : ScalingMat) (pos : Nat) (nextCoef : Int) : ScalingMat :=
  (List.range 4).foldl (fun mat j => put4 mat (base + offset32x32 pos + j * 32) nextCoef) mat

-- ---------------------------------------------------------------------------
-- Parsing
-- ---------------------------------------------------------------------------

/-- The loops over `scaling_list_delta_coef`, which are left at a value out of range; `put` stores
a coefficient. -/
def deltaCoefs (put : ScalingMat → Nat → Int → ScalingMat) :
    List Nat → Int → ScalingMat → Bitstrm → Bool × ScalingMat × Bitstrm
  | [], _, mat, s => (true, mat, s)
  | pos :: scanTable, nextCoef, mat, s =>
    let get := ihevcdSev s
    if get.1 < -256 ∨ 255 < get.1 then (false, mat, get.2)
    else
      let nextCoef := (nextCoef + get.1 + 256).tmod 256
      deltaCoefs put scanTable nextCoef (put mat pos nextCoef) get.2

/-- A list whose `scaling_list_pred_mode_flag` is set. -/
def explicitList (sizeId base : Nat) (mat : ScalingMat) (s : Bitstrm) :
    Bool × ScalingMat × Bitstrm :=
  let coefNum := min 64 (1 <<< (4 + sizeId <<< 1))
  if 1 < sizeId then
    let get := ihevcdSev s
    if get.1 < -7 ∨ 247 < get.1 then (false, mat, get.2)
    else
      let dcValue := get.1 + 8
      let scanTable := (gapvIhevcInvscan 2).take coefNum
      if sizeId = 2 then
        let r := deltaCoefs (putCoef16x16 base) scanTable dcValue mat get.2
        (r.1, if r.1 then set r.2.1 base dcValue else r.2.1, r.2.2)
      else
        deltaCoefs (fun mat pos nextCoef => set (putCoef32x32 base mat pos nextCoef) base dcValue)
          scanTable dcValue mat get.2
  else
    deltaCoefs (putCoef base) ((gapvIhevcInvscan (sizeId + 1)).take coefNum) 8 mat s

/-- A list whose `scaling_list_pred_mode_flag` is not set: a delta of 0 leaves the matrix. -/
def predList (sizeId matrixId base : Nat) (mat : ScalingMat) (s : Bitstrm) :
    Bool × ScalingMat × Bitstrm :=
  let get := ihevcdUev s
  if (if sizeId ≤ 2 then matrixId < get.1 else matrixId / 3 < get.1) then (false, mat, get.2)
  else
    let numElements := 1 <<< (4 + sizeId <<< 1)
    let mat :=
      if get.1 ≠ 0 then
        copy mat base
          (cells mat (base - get.1 * (if sizeId = 3 then 3 else 1) * numElements) numElements)
      else mat
    (true, mat, get.2)

def scalingListMat (sizeId matrixId : Nat) (mat : ScalingMat) (s : Bitstrm) :
    Bool × ScalingMat × Bitstrm :=
  let flag := ihevcdBitsGet s 1
  let base := scalingMatOffset (sizeId * 6 + matrixId)
  if flag.1 = 0 then predList sizeId matrixId base mat flag.2
  else explicitList sizeId base mat flag.2

/-- The loops over `size_id` and `matrix_id`. -/
def scalingListMats : List (Nat × Nat) → ScalingMat → Bitstrm → Bool × ScalingMat × Bitstrm
  | [], mat, s => (true, mat, s)
  | q :: rest, mat, s =>
    let r := scalingListMat q.1 q.2 mat s
    if r.1 then scalingListMats rest r.2.1 r.2.2 else r

/-- The 32x32 matrix `matrixId` of chroma from the 16x16 one. -/
def deriveChroma (mat : ScalingMat) (matrixId : Nat) : ScalingMat :=
  let ref := scalingMatOffset (2 * 6 + matrixId)
  let base := scalingMatOffset (3 * 6 + matrixId)
  let mat := (gapvIhevcInvscan 2).foldl
    (fun mat pos =>
      let offset := offset16x16 pos
      putCoef32x32 base mat pos (if offset = 0 then mat (ref + 1) else mat (ref + offset))) mat
  set mat base (mat ref)

def chromaFmtIdcYuv444 : Nat := 3

/-- `ihevcd_scaling_list_data`: whether it succeeds, the array and the reader. -/
def scalingListData (chromaFormatIdc : Nat) (mat : ScalingMat) (s : Bitstrm) :
    Bool × ScalingMat × Bitstrm :=
  let r := scalingListMats
    ((List.range 6).map (0, ·) ++ (List.range 6).map (1, ·) ++ (List.range 6).map (2, ·) ++
      [(3, 0), (3, 3)]) mat s
  (r.1,
    if r.1 ∧ chromaFormatIdc = chromaFmtIdcYuv444 then [1, 2, 4, 5].foldl deriveChroma r.2.1
    else r.2.1,
    r.2.2)

-- ---------------------------------------------------------------------------
-- The reader is the one of the parameter sets
-- ---------------------------------------------------------------------------

theorem deltaCoefs_reader (put : ScalingMat → Nat → Int → ScalingMat) (scanTable : List Nat)
    (nextCoef : Int) (mat : ScalingMat) (s : Bitstrm) :
    ((deltaCoefs put scanTable nextCoef mat s).1, (deltaCoefs put scanTable nextCoef mat s).2.2) =
      scalingCoefs scanTable.length s := by
  induction scanTable generalizing nextCoef mat s with
  | nil => rfl
  | cons pos scanTable ih =>
    simp only [deltaCoefs, List.length_cons, scalingCoefs]
    split
    · rfl
    · exact ih _ _ _

theorem explicitList_reader (hsize : sizeId < 4) (base : Nat) (mat : ScalingMat) (s : Bitstrm) :
    ((explicitList sizeId base mat s).1, (explicitList sizeId base mat s).2.2) =
      if 1 < sizeId then
        let get := ihevcdSev s
        if get.1 < -7 ∨ 247 < get.1 then (false, get.2)
        else scalingCoefs (min 64 (1 <<< (4 + sizeId <<< 1))) get.2
      else scalingCoefs (min 64 (1 <<< (4 + sizeId <<< 1))) s := by
  have hsmall : ∀ n < 2, ((gapvIhevcInvscan (n + 1)).take (min 64 (1 <<< (4 + n <<< 1)))).length =
      min 64 (1 <<< (4 + n <<< 1)) := by decide
  have hlarge : ∀ n < 4, 1 < n → ((gapvIhevcInvscan 2).take (min 64 (1 <<< (4 + n <<< 1)))).length =
      min 64 (1 <<< (4 + n <<< 1)) := by decide
  unfold explicitList
  by_cases hdc : 1 < sizeId
  · simp only [if_pos hdc]
    have hnum := hlarge sizeId hsize hdc
    split
    · rfl
    · split
      · exact (deltaCoefs_reader ..).trans (congrArg (scalingCoefs · _) hnum)
      · exact (deltaCoefs_reader ..).trans (congrArg (scalingCoefs · _) hnum)
  · simp only [if_neg hdc]
    rw [deltaCoefs_reader, hsmall sizeId (by omega)]

theorem predList_reader (sizeId matrixId base : Nat) (mat : ScalingMat) (s : Bitstrm) :
    ((predList sizeId matrixId base mat s).1, (predList sizeId matrixId base mat s).2.2) =
      (if sizeId ≤ 2 then decide ((ihevcdUev s).1 ≤ matrixId)
        else decide ((ihevcdUev s).1 ≤ matrixId / 3), (ihevcdUev s).2) := by
  have hbound : (if sizeId ≤ 2 then decide ((ihevcdUev s).1 ≤ matrixId)
      else decide ((ihevcdUev s).1 ≤ matrixId / 3)) =
      !decide (if sizeId ≤ 2 then matrixId < (ihevcdUev s).1
        else matrixId / 3 < (ihevcdUev s).1) := by
    by_cases hsize : sizeId ≤ 2
    · simp only [if_pos hsize, ← decide_not, Nat.not_lt]
    · simp only [if_neg hsize, ← decide_not, Nat.not_lt]
  rw [hbound]
  by_cases hbad : if sizeId ≤ 2 then matrixId < (ihevcdUev s).1 else matrixId / 3 < (ihevcdUev s).1
  · rw [decide_eq_true hbad]
    simp only [predList, if_pos hbad, Bool.not_true]
  · rw [decide_eq_false hbad]
    simp only [predList, if_neg hbad, Bool.not_false]

theorem scalingListMat_reader (hsize : sizeId < 4) (matrixId : Nat) (mat : ScalingMat)
    (s : Bitstrm) :
    ((scalingListMat sizeId matrixId mat s).1, (scalingListMat sizeId matrixId mat s).2.2) =
      scalingList sizeId matrixId s := by
  unfold scalingListMat scalingList
  simp only
  split
  · exact predList_reader ..
  · exact explicitList_reader hsize ..

theorem scalingListMats_reader (l : List (Nat × Nat)) (hl : ∀ q ∈ l, q.1 < 4) (mat : ScalingMat)
    (s : Bitstrm) : (scalingListMats l mat s).2.2 = scalingLists l s := by
  induction l generalizing mat s with
  | nil => rfl
  | cons q l ih =>
    have hhead := scalingListMat_reader (hl q (List.mem_cons_self ..)) q.2 mat s
    simp only [scalingListMats, scalingLists, ← hhead]
    split
    · exact ih (fun q hq => hl q (List.mem_cons_of_mem _ hq)) _ _
    · rfl

/-- What a PPS takes for the reader behind its scaling lists. -/
theorem scalingListData_reader (chromaFormatIdc : Nat) (mat : ScalingMat) (s : Bitstrm) :
    (scalingListData chromaFormatIdc mat s).2.2 = ihevcdScalingListData s :=
  scalingListMats_reader _ (by decide) mat s

end Libhevc.Decoder
