import PicoOS.Shell.Upload
import PicoOS.Shell.Tracing
import PicoOS.Apps.Senders
import PicoOS.Display.Lost
import PicoOS.Fs.Linear
import PicoOS.Fs.Directory
import PicoOS.Fs.Consistent
import PicoOS.Fs.Mount
import PicoOS.Vfs.Isolation
import PicoOS.Kernel.Current
import PicoOS.Kernel.Tables
import PicoOS.Mem.Sizes
import PicoOS.Switch.Resume
import PicoOS.Scan.Reports
import PicoOS.Scan.Held
import PicoOS.Scan.Ready
import PicoOS.Scan.Stopped
import PicoOS.Scan.OneShot
import PicoOS.Scan.Exclusive
import PicoOS.Scan.Dwell
import PicoOS.Scan.Names
import PicoOS.Kernel.Mutex
import PicoOS.Kernel.Messages
import PicoOS.Apps.Pi
import PicoOS.Apps.Demo
import PicoOS.Apps.Cluster
import PicoOS.Kernel.Spinlocks
import PicoOS.Kernel.Choice
import PicoOS.Kernel.Core1
import PicoOS.Kernel.Pids
import PicoOS.Kernel.Tids
import PicoOS.Shell.Launch
import PicoOS.Net.Multicast
import PicoOS.Shell.RoundTrip
