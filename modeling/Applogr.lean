import Applogr.Accounting.Compare
import Applogr.Accounting.Launches
import Applogr.Accounting.OneEvent
import Applogr.Accounting.OneTimer
import Applogr.Accounting.WallClock
import Applogr.Concurrency.EarlyEvents
import Applogr.Concurrency.LateListener
import Applogr.Concurrency.OneReader
import Applogr.Core.Sorting
import Applogr.Core.Uninstalled
import Applogr.Fragment.Pages
import Applogr.Fragment.UsageText
import Applogr.Persistence.Recovery
import Applogr.Persistence.Relaunch
import Applogr.Persistence.Save
import Applogr.Process.World
import Applogr.Util.Yeshup
