import SmartPrince.Lib.Bits
import SmartPrince.Lib.CString
import SmartPrince.Lib.Loop
import SmartPrince.Lib.FileSystem
import SmartPrince.Lib.Fill
import SmartPrince.Lib.Hidden
import SmartPrince.Lib.Memory
import SmartPrince.Lib.Plane
import SmartPrince.Lib.Program
import SmartPrince.Lib.Run
import SmartPrince.Lib.Watch
import SmartPrince.Lib.Word
import SmartPrince.Lib.Register
import SmartPrince.Lib.Ranges
import SmartPrince.Lib.Readers
import SmartPrince.Common.CameraState
import SmartPrince.Common.Yuv420p
import SmartPrince.Common.VideoConv
import SmartPrince.Common.JpegUtils
import SmartPrince.Common.JpegEncode
import SmartPrince.Common.JpegFields
import SmartPrince.Common.JpegFieldsSoundness
import SmartPrince.Common.JpegRoundTrip
import SmartPrince.Common.JpegSoundness
import SmartPrince.Common.JpegSamples
import SmartPrince.Common.MjpegSoundness
import SmartPrince.Common.PictureRoundTrip
import SmartPrince.Common.Yuv422Soundness
import SmartPrince.Common.Yuv420Soundness
import SmartPrince.Common.Rgb24Soundness
import SmartPrince.Common.ChromaSoundness
import SmartPrince.Common.BayerSoundness
import SmartPrince.Common.SonixTurns
import SmartPrince.Common.SonixSoundness
import SmartPrince.Common.SonixBounds
import SmartPrince.Common.Rotate
import SmartPrince.Common.RotateSoundness
import SmartPrince.Common.HalfTurnSoundness
import SmartPrince.Common.RotateInitSoundness
import SmartPrince.Common.V4l2
import SmartPrince.Common.Video
import SmartPrince.Common.VideoSpec
import SmartPrince.Common.BufferQueue
import SmartPrince.Common.MaskSoundness
import SmartPrince.Common.CaptureSoundness
import SmartPrince.Common.CreatePath
import SmartPrince.Common.StrftimeBounds
import SmartPrince.Common.StrftimeSoundness
import SmartPrince.Common.ConfigSoundness
import SmartPrince.Common.Debug
import SmartPrince.Common.DebugBounds
import SmartPrince.Common.Picture
import SmartPrince.Common.PgmSoundness
import SmartPrince.Common.MaskFile
import SmartPrince.Common.PpmFile
import SmartPrince.Common.Overlay
import SmartPrince.Common.PlanarSoundness
import SmartPrince.Common.FailedCapture
import SmartPrince.Common.Untouched
import SmartPrince.Common.Unseen
import SmartPrince.Common.StartSoundness
import SmartPrince.Common.AutobrightSoundness
import SmartPrince.Common.PixFormatSoundness
import SmartPrince.Common.ControlSoundness
import SmartPrince.Eyes.Motion
import SmartPrince.Eyes.SizingSoundness
import SmartPrince.Eyes.MotionThread
import SmartPrince.Eyes.StartupSoundness
import SmartPrince.Eyes.FaceCollector
import SmartPrince.Eyes.MotionCapture
import SmartPrince.Eyes.MotionDiff
import SmartPrince.Eyes.DiffSoundness
import SmartPrince.Eyes.DiffBounds
import SmartPrince.Net.Networks
import SmartPrince.Net.RequestSoundness
import SmartPrince.Net.ReplySoundness
import SmartPrince.Net.RelaySoundness
import SmartPrince.Net.ToggleSoundness
import SmartPrince.Net.HttpParser
import SmartPrince.Net.RequestLineSoundness
import SmartPrince.Net.RequestLineBounds
import SmartPrince.Net.HeaderSoundness
import SmartPrince.Net.TrimBounds
import SmartPrince.Net.HttpServer
import SmartPrince.Net.HandleSoundness
import SmartPrince.Wiring.Nodes
import SmartPrince.Wiring.Expanders
import SmartPrince.Wiring.ExpanderSoundness
import SmartPrince.Wiring.SettingSoundness
import SmartPrince.Wiring.OnBoard
import SmartPrince.Wiring.PinSettings
import SmartPrince.Wiring.OnBoardRegisters
import SmartPrince.Wiring.OnBoardPins
import SmartPrince.Wiring.OnBoardBytes
import SmartPrince.Wiring.OnBoardSoundness
import SmartPrince.Lib.ShiftRegister
import SmartPrince.Wiring.Sr595
import SmartPrince.Wiring.Sr595Soundness
import SmartPrince.Wiring.Shift
import SmartPrince.Lib.GapSort
import SmartPrince.Wiring.SoftServo
import SmartPrince.Wiring.SoftServoSoundness
import SmartPrince.Wiring.Extensions
import SmartPrince.Wiring.ExtensionSoundness
import SmartPrince.Eyes.MotionLoop
import SmartPrince.Eyes.MotionLoopSoundness
