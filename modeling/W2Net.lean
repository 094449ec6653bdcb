import W2Net.Proofs.Datasets.HrscDataset
import W2Net.Proofs.Models.Prefilter
import W2Net.Proofs.Utils.Augment
import W2Net.Proofs.Utils.Lbr.Bresenham
import W2Net.Proofs.Utils.Lbr.GeoDistance
import W2Net.Proofs.Utils.Nms
import W2Net.Lib.Counter
import W2Net.Lib.FirstClaim
import W2Net.Utils.Map
import W2Net.Proofs.Utils.Map.Assign
import W2Net.Proofs.Utils.Map.Curves
import W2Net.Lib.RowMajor
import W2Net.Lib.Tensor
import W2Net.Lib.ConvSize
import W2Net.Models.Layers
import W2Net.Models.FcaNet
import W2Net.Models.Fpan
import W2Net.Proofs.Models.FeatureSizes
import W2Net.Models.Anchors
import W2Net.Models.Heads
import W2Net.Models.RetinaNet
import W2Net.Proofs.Models.HeadRows
import W2Net.Proofs.Models.AnchorRows
import W2Net.Proofs.Models.RetinaNet
import W2Net.Lib.RunningBest
import W2Net.Train
import W2Net.Proofs.Train.Session
import W2Net.Proofs.Train.Resume
import W2Net.Utils.Lbr.Centerline
import W2Net.Proofs.Utils.Lbr.Centerline
import W2Net.Utils.Wavelength
import W2Net.Proofs.Utils.Wavelength
import W2Net.Proofs.Utils.Lbr.Listing
import W2Net.Utils.Heading
import W2Net.Proofs.Utils.Heading
import W2Net.Proofs.Utils.Lbr.Reversal
import W2Net.Proofs.Utils.Lbr.Midline
import W2Net.Lib.RotatedRect
import W2Net.Utils.BoxCoder
import W2Net.Utils.Rescale
import W2Net.Models.Decoder
import W2Net.Utils.Detect
import W2Net.Proofs.Utils.Detect
import W2Net.Datasets.Collater
import W2Net.Proofs.Datasets.Collater
import W2Net.Proofs.Utils.ScaledLabels
import W2Net.Datasets.AnnotationXml
import W2Net.Datasets.Wake2gt
import W2Net.Proofs.Datasets.AnnotationXml
import W2Net.Proofs.Datasets.Wake2gt
import W2Net.Eval
import W2Net.Lib.Ranking
import W2Net.Proofs.Utils.BoxCoder
import W2Net.Proofs.Eval
import W2Net.Proofs.Utils.RandomAffine
import W2Net.Proofs.Models.ClipBoxes
import W2Net.Proofs.Models.Lmr5p
import W2Net.Modules.Smsa
import W2Net.Lib.Attention
import W2Net.Proofs.Models.PixelAttention
import W2Net.Proofs.Utils.ImSegment
import W2Net.Proofs.Utils.Bbox
import W2Net.Proofs.Utils.Lbr.LambdaGeo
import W2Net.Proofs.Models.TargetPartition
import W2Net.Proofs.Utils.UsableInput
import W2Net.Proofs.Utils.OverlapRatio
import W2Net.Proofs.Utils.RboxOverlaps
import W2Net.Lib.Staircase
import W2Net.Proofs.Utils.Map.VocAp
import W2Net.Proofs.Utils.Map.Appending
import W2Net.Proofs.Utils.Map.MeanAP
import W2Net.Proofs.FileNames
import W2Net.Lib.RunningMean
import W2Net.Proofs.Train.BestEpoch
import W2Net.Proofs.Train.EpochLoss
import W2Net.Lib.Dice
import W2Net.Proofs.Segmentation
import W2Net.Proofs.Utils.Lbr.DigitalLine
import W2Net.Proofs.Utils.Lbr.GapConservation
import W2Net.Proofs.Utils.Lbr.TrimmedMean
import W2Net.Utils.Lbr.Outliers
import W2Net.Proofs.Utils.CrestSpacing
import W2Net.Proofs.Utils.Lbr.Outliers
import W2Net.Lib.Modulus
import W2Net.Proofs.Utils.Ambiguity
import W2Net.Proofs.Utils.Lbr.LongAxis
import W2Net.Proofs.Utils.Letterbox
import W2Net.Datasets.WakeDataset
import W2Net.Lib.Mirror
import W2Net.Proofs.Utils.BoxCorners
import W2Net.Proofs.Utils.Flips
import W2Net.Proofs.Utils.VisObbLabels
import W2Net.Lib.Crossing
import W2Net.Proofs.Utils.OverlapsCuda
import W2Net.Lib.Numerals
import W2Net.Lib.BitWords
import W2Net.Utils.RotateNms
import W2Net.Proofs.Utils.RotateNms
import W2Net.Proofs.Utils.Lbr.Scanners
import W2Net.Proofs.Models.AnchorGrid
import W2Net.Lib.Direction
import W2Net.Proofs.Utils.SortCorners
import W2Net.Utils.SortCorners
import W2Net.Lib.DecayFilter
import W2Net.Utils.SoftNms
import W2Net.Proofs.Utils.SoftNms
import W2Net.Lib.InsertionSort
import W2Net.Utils.OverlapsKernel
import W2Net.Proofs.Utils.DevRotateIoU
import W2Net.Proofs.Utils.OverlapsKernel
import W2Net.Proofs.Utils.MultiScale
import W2Net.Lib.Decimal
import W2Net.Lib.TextLines
import W2Net.Utils.MapText
import W2Net.Proofs.Utils.MapText
import W2Net.Utils.MapReport
import W2Net.Proofs.Utils.Map.Report
import W2Net.Proofs.Train.Schedule
import W2Net.Models.TrainingLoss
import W2Net.Proofs.Models.TrainingLoss
import W2Net.Lib.Dct
import W2Net.Models.FreqAttention
import W2Net.Proofs.Models.FreqAttention
import W2Net.Utils.EdgeWavelength
import W2Net.Proofs.Utils.EdgeWavelength
import W2Net.Models.Unetdecoder
import W2Net.Models.SegBranch
import W2Net.Proofs.Models.SegBranch
import W2Net.Datasets.WakeObjects
import W2Net.Lib.FirstKey
import W2Net.Datasets.Wake2voc
import W2Net.Proofs.Datasets.VocBox
import W2Net.Proofs.Datasets.Wake2voc
import W2Net.Lib.FilterBank
import W2Net.Utils.WtVis
import W2Net.Proofs.Utils.WtVis
import W2Net.Lib.TextFields
import W2Net.Utils.HypParse
import W2Net.Proofs.Utils.HypParse
