import Libhevc.Common.DpbList
import Libhevc.Decoder.BufferPoolLaws
import Libhevc.Decoder.JobDelivery
import Libhevc.Decoder.ParameterSetLaws
import Libhevc.Decoder.PicOrderCnt
import Libhevc.Decoder.RefPicSetChain
import Libhevc.Decoder.TileScan
import Libhevc.Encoder.Overflow
import Libhevc.RoundTrip.Nal
import Libhevc.RoundTrip.Header
import Libhevc.RoundTrip.Cabac
import Libhevc.RoundTrip.Collocated
import Libhevc.RoundTrip.MvMerge
import Libhevc.Decoder.SliceRingLive
import Libhevc.Decoder.CabacStartRun
import Libhevc.Decoder.CuCtxtRun
import Libhevc.Encoder.BufferQueLaws
import Libhevc.Encoder.DepMngr
import Libhevc.Encoder.MultiThrdLaws
import Libhevc.Common.QuantIquantLaws
import Libhevc.Common.ItransReconLaws
import Libhevc.RoundTrip.Sao
import Libhevc.RoundTrip.QpMap
import Libhevc.RoundTrip.TransformTreeRun
import Libhevc.Encoder.LapRefsRun
import Libhevc.Decoder.BitReader
import Libhevc.RoundTrip.BypassGroups
import Libhevc.Decoder.PicInit
import Libhevc.Decoder.LongTermRefs
import Libhevc.Decoder.TileMemory
import Libhevc.Decoder.InterPicSet
import Libhevc.Decoder.ScalingMatLaws
import Libhevc.Decoder.MvBanksLaws
import Libhevc.Decoder.CabacBypass
import Libhevc.RoundTrip.Bins
import Libhevc.Decoder.CoeffLevelsLaws
import Libhevc.Encoder.AccessUnitLaws
import Libhevc.Common.SaoEdgeDiagonal
import Libhevc.Encoder.SignParity
import Libhevc.Decoder.UnpackRefines
import Libhevc.Decoder.TuOrder
import Libhevc.RoundTrip.EntryPoints
import Libhevc.Encoder.LapCommandsLaws
import Libhevc.Encoder.VarQ
import Libhevc.Encoder.CbrBuffer
import Libhevc.Encoder.SubGopRun
import Libhevc.Common.DeblkSymmetry
import Libhevc.Decoder.PaddingExact
import Libhevc.Decoder.IntraPredExact
import Libhevc.RoundTrip.Residual
import Libhevc.RoundTrip.CodingUnitBytes
