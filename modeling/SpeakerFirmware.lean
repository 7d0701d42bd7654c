import SpeakerFirmware.Py32.Sync
import SpeakerFirmware.Py32.Command
import SpeakerFirmware.Nvram.PurgeReadable
import SpeakerFirmware.Nvram.Clear
import SpeakerFirmware.Nvram.MergeLoss
import SpeakerFirmware.Ota.Bt.RxThread
import SpeakerFirmware.Ota.Bt.Session
import SpeakerFirmware.Ota.Bt.Framing
import SpeakerFirmware.Ota.Manifest.Elements
import SpeakerFirmware.System.AppSwitcher
import SpeakerFirmware.Playlist.Play
import SpeakerFirmware.Utils.RingbufFifo
import SpeakerFirmware.Ota.Upgrade.Clean
import SpeakerFirmware.RemoteCmd.Ble
import SpeakerFirmware.Property.Transparent
import SpeakerFirmware.Property.Delete
import SpeakerFirmware.Property.Heap
import SpeakerFirmware.BtManager.SppbleWakeup
import SpeakerFirmware.BtManager.DevInfo
import SpeakerFirmware.System.TtsOwnership
import SpeakerFirmware.System.LeCleanup
import SpeakerFirmware.Ota.Pipeline.Delivery
import SpeakerFirmware.Ota.Manifest.File
import SpeakerFirmware.Ota.Upgrade.Resume
import SpeakerFirmware.Py32.Volume
import SpeakerFirmware.Nvram.BitmapSearch
import SpeakerFirmware.Ota.Upgrade.MirrorLookup
import SpeakerFirmware.Utils.Tflv
import SpeakerFirmware.Utils.TranscodeGbk
import SpeakerFirmware.Stream.Clone
import SpeakerFirmware.System.TtsMerge
import SpeakerFirmware.Audio.Volume
import SpeakerFirmware.Audio.ApsMonitor
import SpeakerFirmware.Drivers.AdcKey
import SpeakerFirmware.Drivers.Battery
import SpeakerFirmware.Crc8
import SpeakerFirmware.Audio.LeaVolume
import SpeakerFirmware.Ota.Version
import SpeakerFirmware.Py32.RxRing
import SpeakerFirmware.Py32.Crc
