import Libhevc.Common.CodingQuadtree

/-!
# Residual coding

What the two sides share of `residual_coding`: the contexts and the scans. The
tables of `ihevc_common_tables.c` have a row for each scan, and `gapv_ihevc_scan`
one entry for each scan and size.
-/

namespace Libhevc

/-- `SCAN_DIAG_UPRIGHT` -/
def scanDiagUpright : Nat := 0

/-- `SCAN_HORZ` -/
def scanHorz : Nat := 1

/-- `SCAN_VERT` -/
def scanVert : Nat := 2

-- ---------------------------------------------------------------------------
-- Contexts
-- ---------------------------------------------------------------------------

/-- `IHEVC_CAB_TFM_SKIP0` -/
def ihevcCabTfmSkip0 : Nat := ihevcCabCbcrIdx + 5

/-- `IHEVC_CAB_TFM_SKIP12` -/
def ihevcCabTfmSkip12 : Nat := ihevcCabTfmSkip0 + 1

/-- `IHEVC_CAB_COEFFX_PREFIX` -/
def ihevcCabCoeffxPrefix : Nat := ihevcCabTfmSkip12 + 1

/-- `IHEVC_CAB_COEFFY_PREFIX` -/
def ihevcCabCoeffyPrefix : Nat := ihevcCabCoeffxPrefix + 18

/-- `IHEVC_CAB_CODED_SUBLK_IDX` -/
def ihevcCabCodedSublkIdx : Nat := ihevcCabCoeffyPrefix + 18

/-- `IHEVC_CAB_COEFF_FLAG` -/
def ihevcCabCoeffFlag : Nat := ihevcCabCodedSublkIdx + 4

/-- `IHEVC_CAB_COEFABS_GRTR1_FLAG` -/
def ihevcCabCoefabsGrtr1Flag : Nat := ihevcCabCoeffFlag + 44

/-- `IHEVC_CAB_COEFABS_GRTR2_FLAG` -/
def ihevcCabCoefabsGrtr2Flag : Nat := ihevcCabCoefabsGrtr1Flag + 24

/-- `IHEVC_CAB_EXPLICIT_RDPCM_FLAG`, behind those of cross-component prediction -/
def ihevcCabExplicitRdpcmFlag : Nat := ihevcCabCoefabsGrtr2Flag + 6 + 8 + 2

/-- `IHEVC_CAB_EXPLICIT_RDPCM_DIR` -/
def ihevcCabExplicitRdpcmDir : Nat := ihevcCabExplicitRdpcmFlag + 2

-- ---------------------------------------------------------------------------
-- Scans
-- ---------------------------------------------------------------------------

def gau1IhevcInvscan8x8 : List (List Nat) :=
  [[0, 8, 1, 16, 9, 2, 24, 17, 10, 3, 32, 25, 18, 11, 4, 40,
    33, 26, 19, 12, 5, 48, 41, 34, 27, 20, 13, 6, 56, 49, 42, 35,
    28, 21, 14, 7, 57, 50, 43, 36, 29, 22, 15, 58, 51, 44, 37, 30,
    23, 59, 52, 45, 38, 31, 60, 53, 46, 39, 61, 54, 47, 62, 55, 63],
   [0, 1, 2, 3, 4, 5, 6, 7, 8, 9, 10, 11, 12, 13, 14, 15,
    16, 17, 18, 19, 20, 21, 22, 23, 24, 25, 26, 27, 28, 29, 30, 31,
    32, 33, 34, 35, 36, 37, 38, 39, 40, 41, 42, 43, 44, 45, 46, 47,
    48, 49, 50, 51, 52, 53, 54, 55, 56, 57, 58, 59, 60, 61, 62, 63],
   [0, 8, 16, 24, 32, 40, 48, 56, 1, 9, 17, 25, 33, 41, 49, 57,
    2, 10, 18, 26, 34, 42, 50, 58, 3, 11, 19, 27, 35, 43, 51, 59,
    4, 12, 20, 28, 36, 44, 52, 60, 5, 13, 21, 29, 37, 45, 53, 61,
    6, 14, 22, 30, 38, 46, 54, 62, 7, 15, 23, 31, 39, 47, 55, 63]]

def gau1IhevcInvscan4x4 : List (List Nat) :=
  [[0, 4, 1, 8, 5, 2, 12, 9, 6, 3, 13, 10, 7, 14, 11, 15],
   [0, 1, 2, 3, 4, 5, 6, 7, 8, 9, 10, 11, 12, 13, 14, 15],
   [0, 4, 8, 12, 1, 5, 9, 13, 2, 6, 10, 14, 3, 7, 11, 15]]

def gau1IhevcInvscan2x2 : List (List Nat) := [[0, 2, 1, 3], [0, 1, 2, 3], [0, 2, 1, 3]]

def gau1IhevcScan8x8 : List (List Nat) :=
  [[0, 2, 5, 9, 14, 20, 27, 35, 1, 4, 8, 13, 19, 26, 34, 42,
    3, 7, 12, 18, 25, 33, 41, 48, 6, 11, 17, 24, 32, 40, 47, 53,
    10, 16, 23, 31, 39, 46, 52, 57, 15, 22, 30, 38, 45, 51, 56, 60,
    21, 29, 37, 44, 50, 55, 59, 62, 28, 36, 43, 49, 54, 58, 61, 63],
   [0, 1, 2, 3, 4, 5, 6, 7, 8, 9, 10, 11, 12, 13, 14, 15,
    16, 17, 18, 19, 20, 21, 22, 23, 24, 25, 26, 27, 28, 29, 30, 31,
    32, 33, 34, 35, 36, 37, 38, 39, 40, 41, 42, 43, 44, 45, 46, 47,
    48, 49, 50, 51, 52, 53, 54, 55, 56, 57, 58, 59, 60, 61, 62, 63],
   [0, 8, 16, 24, 32, 40, 48, 56, 1, 9, 17, 25, 33, 41, 49, 57,
    2, 10, 18, 26, 34, 42, 50, 58, 3, 11, 19, 27, 35, 43, 51, 59,
    4, 12, 20, 28, 36, 44, 52, 60, 5, 13, 21, 29, 37, 45, 53, 61,
    6, 14, 22, 30, 38, 46, 54, 62, 7, 15, 23, 31, 39, 47, 55, 63]]

def gau1IhevcScan4x4 : List (List Nat) :=
  [[0, 2, 5, 9, 1, 4, 8, 12, 3, 7, 11, 14, 6, 10, 13, 15],
   [0, 1, 2, 3, 4, 5, 6, 7, 8, 9, 10, 11, 12, 13, 14, 15],
   [0, 4, 8, 12, 1, 5, 9, 13, 2, 6, 10, 14, 3, 7, 11, 15]]

def gau1IhevcScan2x2 : List (List Nat) := [[0, 2, 1, 3], [0, 1, 2, 3], [0, 2, 1, 3]]

/-- The row of a scan. -/
def scanRow (table : List (List Nat)) (scanIdx : Nat) : List Nat := table.getD scanIdx []

def gapvIhevcScan : List (List Nat) :=
  [0, 1, 2].flatMap fun scanIdx =>
    [scanRow gau1IhevcScan2x2 scanIdx, scanRow gau1IhevcScan4x4 scanIdx,
      scanRow gau1IhevcScan8x8 scanIdx]

def gapvIhevcInvscan : List (List Nat) :=
  [0, 1, 2].flatMap fun scanIdx =>
    [scanRow gau1IhevcInvscan2x2 scanIdx, scanRow gau1IhevcInvscan4x4 scanIdx,
      scanRow gau1IhevcInvscan8x8 scanIdx]

end Libhevc
